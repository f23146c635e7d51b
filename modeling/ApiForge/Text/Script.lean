import ApiForge.Text.Runs

/-!
# Scripts

The Unicode script of every code point, as an index into `scriptNames`.
-/

namespace ApiForge.Text

/-- The names of the scripts, in lower case without separators; other names of one script follow after a blank. -/
def scriptNames : List String := [
  "adlam adlm", "ahom", "anatolianhieroglyphs hluw", "arabic arab", "armenian armn", "avestan avst",
  "balinese bali", "bamum bamu", "bassavah bass", "batak batk", "bengali beng", "bhaiksuki bhks", "bopomofo bopo",
  "brahmi brah", "braille brai", "buginese bugi", "buhid buhd", "canadianaboriginal cans", "carian cari",
  "caucasianalbanian aghb", "chakma cakm", "cham", "cherokee cher", "chorasmian chrs", "common zyyy",
  "coptic qaac copt", "cuneiform xsux", "cypriot cprt", "cyprominoan cpmn", "cyrillic cyrl", "deseret dsrt",
  "devanagari deva", "divesakuru diak", "dogra dogr", "duployan dupl", "egyptianhieroglyphs egyp", "elbasan elba",
  "elymaic elym", "ethiopic ethi", "garay", "georgian geor", "glagolitic glag", "gothic goth", "grantha gran",
  "greek grek", "gujarati gujr", "gunjalagondi gong", "gurmukhi guru", "gurungkhema", "hani han", "hangul hang",
  "hanifirohingya rohg", "hanunoo hano", "hatran hatr", "hebrew hebr", "hiragana hira", "imperialaramaic armi",
  "inherited zinh qaai", "inscriptionalpahlavi phli", "inscriptionalparthian prti", "javanese java", "kaithi kthi",
  "kannada knda", "katakana kana", "kawi", "kayahli kali", "kharoshthi khar", "khitansmallscript kits",
  "khmer khmr", "khojki khoj", "khudawadi sind", "kiratrai", "laoo lao", "latin latn", "lepcha lepc", "limbu limb",
  "lineara lina", "linearb linb", "lisu", "lycian lyci", "lydian lydi", "mahajani mahj", "makasar maka",
  "malayalam mlym", "mandaic mand", "manichaean mani", "marchen marc", "masaramgondi gonm", "medefaidrin medf",
  "meeteimayek mtei", "mendekikakui mend", "meroiticcursive merc", "meroitichieroglyphs mero", "miao plrd", "modi",
  "mongolian mong", "mroo mro", "multani mult", "myanmar mymr", "nabataean nbat", "nagmundari nagm",
  "nandinagari nand", "newtailue talu", "newa", "nkoo nko", "nushu nshu", "nyiakengpuachuehmong hmnp",
  "ogham ogam", "olchiki olck", "olonal", "oldhungarian hung", "olditalic ital", "oldnortharabian narb",
  "oldpermic perm", "oldpersian xpeo", "oldsogdian sogo", "oldsoutharabian sarb", "oldturkic orkh",
  "olduyghur ougr", "oriya orya", "osage osge", "osmanya osma", "pahawhhmong hmng", "palmyrene palm",
  "paucinhau pauc", "phagspa phag", "phoenician phnx", "psalterpahlavi phlp", "rejang rjng", "runic runr",
  "samaritan samr", "saurashtra saur", "sharada shrd", "shavian shaw", "siddham sidd", "signwriting sgnw",
  "sinhala sinh", "sogdian sogd", "sorasompeng sora", "soyombo soyo", "sundanese sund", "sunuwar",
  "sylotinagri sylo", "syriac syrc", "tagalog tglg", "tagbanwa tagb", "taile tale", "taitham lana", "taiviet tavt",
  "takri takr", "tamil taml", "tangsa tnsa", "tangut tang", "telugu telu", "thaana thaa", "thai", "tibetan tibt",
  "tifinagh tfng", "tirhuta tirh", "todhri", "toto", "ugaritic ugar", "unknown zzzz", "vaii vai", "vithkuqi vith",
  "wancho wcho", "warangciti wara", "yezidi yezi", "yiii yi", "zanabazarsquare zanb"]

/-- The index that two capital letters stand for. -/
def scriptIndex? : List Char → Option Nat
  | [a, b] => some ((a.toNat - 65) * 26 + (b.toNat - 65))
  | _ => none

/-- The script of every code point, run by run. -/
def scriptRuns : Runs Nat := Runs.decode 2 scriptIndex? (String.join [
  "AY1tCVqAY6CVqAY1bCVAYfCVAY5CVnAYCVvAYCVchAY13CV5AY5AM2AYkCF34BS4AYBS3GG2BS4AYBSGG4BSAYBSAYBS3GGBSGGBSkGGBS1rAZeB",
  "SgBD3pCF2BD4pGGAE12GG2AE1eGG2AE3GGCC1jGG8CCrGG4CC6GGbAD5AYAD6AYADeAYAD3AYADwAYADaCFbADqCFAD30AYADyFNeGGFN1oGG2FN",
  "3AD1cFY1eGGeEA1nGG2EA3FA1aGG2FAfGGDGsGG2DGGGFNbGG5ADvGGAD2GG5AD23AYADtBF29CF4BFfAY2BFqAK4GGAK8GG2AK2GG2AKmGGAK7G",
  "GAKGG3AK4GG2AK9GG2AK2GG2AK4GG8AKGG4AK2GGAK5GG2AKpGG2BV3GGBV6GG4BV2GG2BVmGGBV7GGBV2GGBV2GGBV2GG2BVGGBV5GG4BV2GG2B",
  "V3GG3BVGG7BV4GGBVGG7BVhGGaBT3GGBT9GGBT3GGBTmGGBT7GGBT2GGBT5GG2BTaGGBT3GGBT3GG2BTGGfBT4GG2BTcGG7BT7GGEP3GGEP8GG2E",
  "P2GG2EPmGGEP7GGEP2GGEP5GG2EP9GG2EP2GG2EP3GG7EP3GG4EP2GGEP5GG2EPiGGaFU2GGFU6GG3FU3GGFU4GG3FU2GGFUGGFU2GG3FU2GG3FU",
  "3GG3FUcGG4FU5GG3FU3GGFU4GG2FUGG6FUGGeFUlGG5FXdGGFX3GGFXnGGFXgGG2FX9GGFX3GGFX4GG7FX2GGFX3GG2FXGG2FX4GG2FXaGG7FX9C",
  "KdGGCK3GGCKnGGCKaGGCK5GG2CK9GGCK3GGCK4GG7CK2GG6CK2GGCK4GG2CKaGGCK3GGcDFdGGDF3GGDF1fGGDF3GGDF6GG4DFgGG2DFqGGFG3GG",
  "FGiGG3FGoGGFG9GGFGGG2FG7GG3FGGG4FG6GGFGGGFG8GG6FGaGG2FG3GGcFZ1mGG4AYFZsGG11CU2GGCUGGCU5GGCUoGGCUGGCUnGG2CU5GGCUG",
  "GCU7GGCUaGG2CU4GGwGA20GGGA10GG4GA13GGGA10GGGAfGGGA7AY4GA2GG11DU4gBO12GGBOGG5BOGG2BO17AYBO4BY74BM21GGBM4GG2BM7GGB",
  "MGGBM4GG2BM15GGBM4GG2BMxGGBM4GG2BM7GGBMGGBM4GG2BMfGGBM1lGGBM4GG2BM1vGG2BMwGG3BMqGG6AW2eGG2AW6GG2ARhsEDtGG3EZ23AY",
  "3EZbGG7FOmGG9FOCAlAY2GG9AQkGGcFPdGGFP3GGFP2GGcCQ2mGG2CQaGG6CQaGG6DR2AY2DRAYDRkGG6DR2hGG7DR17GG5AR1yGGaCXvGGCXcGG",
  "4CXcGG4CXGG3CXcFQuGG2FQ5GGbDY18GG4DYqGG6DYbGG3DY2CQwAPsGG2AP2FR1rGGFRtGG2FRbGG6FRaGG6FReGG2CFvGG1dAG25GGAG1eFK1s",
  "AJ1gGG8AJ4CW1kGG3CWfGG3CW3EE1cBDbGG5BO17GG2BO3FK8GG8CF3AYCFdAYCF7AY4CFAY6CFAY3CF2AYGG5CV12BS5BDCV1dBS5CV4BS5CVdB",
  "DCV1yBSCF1sCV74BSmGG2BS6GG2BS12GG2BS6GG2BS8GGBSGGBSGGBSGGBSvGG2BS1hGGBSfGGBSeGG2BS6GGBSjGG2BS3GGBS9GGAYcCF2AY2fG",
  "GAYbCVGG2AYbCVAYfGGCVdGG3AYxGGfCFxGGfAY12BSAY3CV2AY6CVAYrCVAYhCV15AY3GG4AYiiGGmAYbGGlAYpsAO74AYhgGG2AYwGGAY2xBP2",
  "oCVwAZ38GG5AZ7BO12GGBOGG5BOGG2GB1kGG7GB2GGeGBBMnGG9BM7GGBM7GGBM7GGBM7GGBM7GGBM7GGBM7GGBM7GGBDwAY2mGGyBXqGGBX2hGG",
  "cBX5yGGqAYlBXAYBXAYpBX9CF4BY2AY8BX4AY4GGCD2eGG2CF2AY2CD3AYCL2iAY2CL3GG5AM17GGBY2mGGAYgAMwAY12GG9AYCLgBYvGGAY1sBY",
  "vAY29CL1bAYCL2gAY4oBX534AY1sBXg74GMwdGG3GM1jGG9DA1cGH8cGGkBD2oAH2gGG8AYyCV2uAY3CV1vGG2CV2GGCVGGCV8GGlCVeFM19GG3A",
  "YaGG6EV1kGG8FB1yGG8FBcGG6BFwCN1aAYCNEY10GGbEYBYtGG3CI26GGAYCIaGG4CI2DUvGGAV1jGG9AVeGG2AVaGG2AV4DUwFS1vGGoFS5DLnG",
  "GaBM6GG2BM6GG2BM6GG9BM7GGBM7GGCV17AYCV9BSCV4AY2GG4AW28DL1aGG2DLaGG6BY8mcGGcBYnGG4BY1dGG6isBXa6GG2BX2yGG12CV7GGcA",
  "E5GG5CCqGGCC5GGCCGGCC2GGCC2GGCCaAD37GGgADa3AY2AD28GG2AD1iGG7ADGGwADgCFgAYaGG6CFeBD2AYzGGAYjGGAY4GG4AD5GGAD3rGG2A",
  "YGGAYwCVqAY6CVqAYbCLaAYCL19AY2BYvGG3BY6GG2BY6GG2BY6GG2BY3GG3AY7GGAY7GGaAY5GG2CZcGGCZqGGCZjGGCZ2GGCZfGG2CZeGGyCZ3",
  "fGG5AY3GG4AY19GG3AY9BS27GGAYdGG3BSGG1bAY19CFGG3mDBtGG3AS1dGGfCFAYrGG4EH10GG9EH3BQrGG5EJ17GG5GFuGGGFEK10GG4EKeGG1",
  "6BE28FD1cERuGG2ERaGG6EQ10GG4EQ10GG4BK14GG8AT1gGGbATGIbGGGIfGGGI7GGGI2GGGIbGGGIfGGGI7GGGI2GG3GD1gGGcCY8nGG9CYmGGa",
  "CY8GGoCV6GGCV16GGCV9GG1xBB6GG2BBGGBB18GGBB2GG3BBGG2BBCEmGGCE9ETwDVvGG8DV9GG1cCBjGGCB2GG5CB5EWsGG3EWDCqGG5DCGG1sD",
  "OwDNoGG4DNkGG2DN1aCO4GGCO2GG5CO8GGCO3GGCOtGG2CO3GG4COaGG7CO9GG7EMwEIwGGwDH13GG4DHcGG9AF1iGG3AF7CHmGG2CH8CGjGG5CG",
  "8EXiGG7EX4GGcEX7GG28EN21GG1jEG1fGGdEG1fGG7EG6BZ14GG8BZaGG6BN12GG3BN5GG2BNmGG62ADvGGGL16GGGL3GG2GL2GGgAD3GG1jAD4E",
  "L14GG8FH16GGmEOqGG12AXsGGkBLnGG9AN26GG4AN10GG9ANCJ1vGGaCJGG2FIpGG7FIaGG6AU1hGGAUiGG8DD13GG9FC2oGGFGkGGbCRiGGCR1b",
  "GG1qDT7GGDTGGDT4GGDTfGGDTbGG6CS1nGG5CSaGG6BR4GGBR8GG2BR2GG2BRmGGBR7GGBR2GGBR5GGCFBR9GG2BR2GG2BR3GG2BRGG6BRGG5BR7",
  "GG2BR7GG3BR5GG3vDZ2kGGDZ5GGuGC20GG8GCaGG4mFE1iGG2FE12GGyDQ1xGGbDQaGG6DRdGGjFT1mGG6FTaGG6DUkGGsABrGG2ABfGG4ABnGG5",
  "5BH1oGG2sGK2bGGcGKBG7GG2BGGG2BG8GGBG2GGBGuGGBG2GG2BGcGG9BGaGG1yDX8GG2DX1aGG2DXbGGrGN20GG8FJ2bGGdARgEU1lGG7BFaGG5",
  "2FLxGGfFLaGG6AL9GGAL19GGALeGGaALtGG3DIwGG2DImGGDIeGG21DJ7GGDJ2GGDJ18GG3DJGGDJ2GGDJ9GG8DJaGG6BU6GGBU2GGBU11GGBU2G",
  "GBU6GG7BUaGG8mDEpGG7CMhGGCM15GG3CMsGG2eDAGGfFU1eGGdFUBApmGG2uBA33GGBA5GGbBA5gGG218BC2rGGdBJuuGGaBJ32zGG5ACg7GG5a",
  "1BW1mGG1c6AHftGG7DSvGGDSaGG4DS2FV27GGFVaGG6AIuGG2AI6GGaES1yGGaESaGGES7GGESlGG5ESjGGc0CT19GG3CTaGG5iDK2jGG2tDP23G",
  "G4DP1lGG7DPhGG1sFWEBBX2CPGGbBX2GGeFW4qgGG8FWlcCPd2GG16FW9GG6w7CL4GGCL7GGCL2GGCLCD7zCL3GGfCDGGtCD3GG2CLGGeCL4GG8E",
  "Bb0GG1s4BI2zGG5BIdGG3BI9GG7BIaGG2BI4AY4GG318AY6yGG6AYc4GG24CF1aGG2CFnGG9AY38GG1oAY6uGGaAY13GG2AY1qCF3AYhCF8AY2CF",
  "7AYuCF4AY1pGGlBS1yGG3eAYkGGcAYkGGcAY2fGG9AYpGG3rAY2dGGAY1zGGAY2GG2AYGG2AY2GG2AY4GGAYcGGAYGGAY7GGAY1tGGAY4GG2AY8G",
  "GAY7GGAYsGGAY4GGAY5GGAYGG3AY7GGAY9gGG2AY84GG2AY1eFFi4GGfFF5GGFFfGGuoCVvGG6CV6GG5xBP7GGBPhGG2BP7GGBP2GGBP5GG5BD1q",
  "GGxBDGG34EC19GG3ECeGG2ECaGG4EC2GG8wGEvGGhGJ1mGG5GJGGcwDW16GG5yEFuGG3EFaGGdhBM7GGBM4GGBM2GGBMfGGDM5hGG2DMgGG15AA2",
  "4GG4AAaGG4AA2GGltAY1wGG24AY1pGG5eAD4GGADrGGAD2GGADGG2ADGGADaGGAD4GGADGGADGG6ADGG4ADGGADGGADGGAD3GGAD2GGADGG2ADGG",
  "ADGGADGGADGGADGGAD2GGADGG2AD4GGAD7GGAD4GGAD4GGADGGADaGGADhGG5AD3GGAD5GGADhGG1gAD2GG7iAY18GG4AY2sGGcAYfGG2AYfGGAY",
  "fGGAY11GGaAY4uGG1kAYqCDAY2GGdAY18GG4AY9GG7AY2GGeAY6GG4aAYrcGG4AYhGG3AYdGG3AY3bGG4AY2nGG6AYcGG4AYGGfAYcGG4AY1kGG8",
  "AYaGG6AY14GG8AYuGG2AYcGG4AY2GG1qAY9gGGcAYeGG2AYdGG3AYaGG5AY1kGG7AYfGG2AYbGG6AY9GG7AY43GGAY2uGGsmBXwyoGGwBX37eGG6",
  "BX66GG2BX4g2GGeBX5rlGGfBXhaGG1wiBXf2GG15uBX3t7GG5BX38gGGf975AYGGuAY2oGG3kCF6oGG47bk"])

end ApiForge.Text
