import ApiForge.Text.Runs

/-!
# General categories

The Unicode general category of every code point. A category is a letter of the table's alphabet, so that a set of
categories is a text; `categoryNames` lists the names of the categories and of their groups with these sets.
-/

namespace ApiForge.Text

/-- The alphabet of the table, in the order Lu Ll Lt Lm Lo Mn Mc Me Nd Nl No Pc Pd Ps Pe Pi Pf Po Sm Sc Sk So Zs Zl Zp
Cc Cf Cs Co Cn. -/
def categoryLetters : List Char := "ABCDEFGHIJKLMNOPQRSTUVWXYZ#$%&".toList

/-- The names of categories and groups of categories, in lower case without separators, with the letters they cover. -/
def categoryNames : List (String × String) := [
  ("uppercaseletter lu", "A"),
  ("lowercaseletter ll", "B"),
  ("titlecaseletter lt", "C"),
  ("modifierletter lm", "D"),
  ("otherletter lo", "E"),
  ("nonspacingmark mn", "F"),
  ("spacingmark mc", "G"),
  ("enclosingmark me", "H"),
  ("decimalnumber digit nd", "I"),
  ("letternumber nl", "J"),
  ("othernumber no", "K"),
  ("connectorpunctuation pc", "L"),
  ("dashpunctuation pd", "M"),
  ("openpunctuation ps", "N"),
  ("closepunctuation pe", "O"),
  ("initialpunctuation pi", "P"),
  ("finalpunctuation pf", "Q"),
  ("otherpunctuation po", "R"),
  ("mathsymbol sm", "S"),
  ("currencysymbol sc", "T"),
  ("modifiersymbol sk", "U"),
  ("othersymbol so", "V"),
  ("spaceseparator zs", "W"),
  ("lineseparator zl", "X"),
  ("paragraphseparator zp", "Y"),
  ("control cntrl cc", "Z"),
  ("format cf", "#"),
  ("surrogate cs", "$"),
  ("privateuse co", "%"),
  ("unassigned cn", "&"),
  ("casedletter lc", "ABC"),
  ("letter l", "ABCDE"),
  ("mark combiningmark m", "FGH"),
  ("number n", "IJK"),
  ("punctuation punct p", "LMNOPQR"),
  ("symbol s", "STUV"),
  ("separator z", "WXY"),
  ("other c", "Z#$%&")]

/-- The general category of every code point, run by run. -/
def categoryRuns : Runs Char := Runs.decode 1 List.head? (String.join [
  "ZwWR3TR3NORSRMR2IaR2S3R2AqNROULUBqNSOSZxWRT4VRUVEPS#VUVSK2UBR2UKEQK3RAnSA7BoSB8ABABABABABABABABABABABABABABABABA",
  "BABABABABABABABABABABAB2ABABABABABABABAB2ABABABABABABABABABABABABABABABABABABABABABABABA2BABAB3A2BABA2BA3B2A4BA2",
  "BA3B3A2BA2BABABA2BAB2ABA2BA3BABA2B2EAB3E4ACBACBACBABABABABABABABAB2ABABABABABABABABAB2ACBABA3BABABABABABABABABAB",
  "ABABABABABABABABABABABABABABABABABABABAB7A2BA2B2ABA4BABABABAB1xEBrDiU4DcUeD5U7DUDUhF34ABABDUAB&2DB3RA&4U2ARA3&A&",
  "A2BAh&A9BzAB2A3B3ABABABABABABABABABABABAB5ABSABA2B2A1fB1cABABABABABABABABABABABABABABABABABVF5H2ABABABABABABABAB",
  "ABABABABABABABABABABABABABABABABABABABA2BABABABABABAB2ABABABABABABABABABABABABABABABABABABABABABABABABABABABABAB",
  "ABABABABABABABABABABABABABABABABABABAB&A12&2DR6B15RM&2V2T&F19MFRF2RF2RF&8Er&4E4R2&b#6S3R2TR2V2FbR#R3EwDEaFlIaR4E",
  "2FE2rREF7#VF6D2F2VF4E2IaE3V2ERe&#EFEuFr&2E2hFbE&eIaExF9D2VR3D&2FT2EmF4DF9DF3DF5&2Rf&EpF3&2R&Eb&5EoUE6&#2&5F9E15D",
  "Fo#FwGE1iFGFEG3F8G4FG2EF7EaF2R2IaRDEfFG2&E8&2E2&2Em&E7&E&3E4&2FEG3F4&2G2&2G2FE&8G&4E2&E3F2&2IaE2T2K6VTERF&2F2G&E",
  "6&4E2&2Em&E7&E2&E2&E2&2F&G3F2&4F2&2F3&3F&7E4&E&7IaF2E3FR&aF2G&E9&E3&Em&E7&E2&E5&2FEG3F5&F2G&G2F&2E&fE2F2&2IaRT&7",
  "EF6&FG2&E8&2E2&2Em&E7&E2&E5&2FEGFGF4&2G2&2G2F&7F2G&4E2&E3F2&2IaVEK6&aFE&E6&3E3&E4&3E2&E&E2&3E2&3E3&3Ec&4G2FG2&3G",
  "3&G3F&2E&6G&eIaK3V6TV&5FG3FE8&E3&En&Eg&2FEF3G4&F3&F4&7F2&E3&2E&2E2F2&2Ia&7RK7VEFG2RE8&E3&En&Ea&E5&2FEGFG5&FG2&G2",
  "F2&7G2&6E2&E2F2&2Ia&E2G&cF2G2E9&E3&E15F2EG3F4&G3&G3FEV&4E3GK7E3F2&2IaK9VE6&FG2&Ei&3Eo&E9&E&2E7&3F&4G3F3&F&G8&6Ia",
  "&2G2R&cE1cFE2F7&4TE6DF8RIaR2&11E2&E&E5&Eo&E&EaFE2F9E&2E5&D&F7&Ia&2E4&wEV3RfVRV3F2V6IaKaVFVFVFNONOG2E8&E10&4FeGF5",
  "RF2E5Fb&F10&V8FV6&V2R5V4R2&11E17G2F4GF6GF2G2F2EIaR6E6G2F2E4F3EG3E2G7E3F4EdFG2F2G6FEGIaG3FV2A12&A&5A&2B17RDB3E95&",
  "E4&2E7&E&E4&2E15&E4&2Ex&E4&2E7&E&E4&2Ef&E1l&E4&2E1v&2F3R9Kk&3EgVa&6A2e&2B6&2MEh8VREhWEqNO&3E23R3J3E8&7EiF3G&9EjF",
  "2GR2&9EiF2&cEd&E3&F2&cE1gF2GF7G8FG2FbR3DR3TEF&2Ia&6Ka&6R6MR4F3#FIa&6EzDE1h&7E5F2EyFE&5E1y&aEv&F3G4F2G3&4G2FG6F3&",
  "4V&3R2IaEu&2E5&bE18&4Eq&6IaK&3VyEnF2G2F&2R2E1hGFGF7&FGFG2F8G6Fa&2FIa&6Ia&6R7DR6&2FeHFg&1dF4GE1bFGF5GFG5FG2E8&R2I",
  "aR7VaF9V9R3F2GEuGF4G2F2GF3E2IaE18FGF2G3FGF3G2&8R4E10G8F8G2F2&3R5Ia&3E3IaEuD6R2B9AB&5A17&2A3R8&8F3RFdGF7E4FE6FE2G",
  "F2E&5B18D1rBdDByD11F1sABABABABABABABABABABABABABABABABABABABABABABABABABABABABABABABABABABABABABABABABABABABABAB",
  "ABABABABABABABABABABABABABABABABABABABABABABABABABABABABABAB9ABABABABABABABABABABABABABABABABABABABABABABABABABA",
  "BABABABABABABABABABABABABABABABABABABABABABABAB9A8B6&2A6&2B8A8B8A8B6&2A6&2B8&A&A&A&AB8A8Be&2B8C8B8C8B8C8B5&B2A4C",
  "UBU3B3&B2A4CU3B4&2B2A4&U3B8A5U3&2B3&B2A4CU2&Wb#5M6R2PQNP2QNPR8XY#5WR9PQR4L2R3SNORbSRLRaW#5&#aKD&2K6S3NODKaS3NO&D",
  "d&3Tx&fFdH4FH3Fc&fV2AV4AV2BA3B2A3BVAV2SA5V6AVAVAVA4VBA4BE4BV2B2A2S5AB4VSV2BVKgJzABJ4KV2&4S5V5S2V4SV2SV2SV7SVvS2V",
  "2SVSVvS7gV8NONOVkS2V7NOV29SVuSpV14S6V20&mVb&lK1oV26KmV53SV9SV1iS8V33SV6wNONONONONONONOKuV18S5NOSvNONONONONOSgV74",
  "S3nNONONONONONONONONONONOS1rNONOSwNOS76V1cSlV2S6V13&2Vw&V2xA1cB1cABA3B2ABABABA4BAB2AB6D2A3BABABABABABABABABABABA",
  "BABABABABABABABABABABABABABABABABABABABABABABABABABABABABABABABABABABABABABAB2V6ABABF3AB&5R4KR2B12&B&5B&2E1k&7DR",
  "&eFEn&9E7&E7&E7&E7&E7&E7&E7&E7&FwR2PQPQR3PQRPQR9MR2MRPQR2PQNONONONOR5DRaM2R4MRNRdV2R3NONONONOM&yVq&V2h&cV5y&qVgW",
  "R3VDEJNONONONONOV2NONONONOMNO2VJ9F4G2MD5V2J3DERV2&E2e&2F2U2D2EME2iRD3E&5E17&E2m&V2K4VaEwV12&9VEgVv&KaVuK8VKfVwKa",
  "V13KfV8wE534V1sEg7pDEvr&3V1j&9E14D6R2E7gDR3EgIaE2&kABABABABABABABABABABABABABABABABABABABABABABABEFH3RFaRDABABAB",
  "ABABABABABABABABABABABD2F2E1yJaF2R6&8UnD9U2ABABABABABABAB3ABABABABABABABABABABABABABABABABABABABABABABABABABABAB",
  "ABABABABDB8ABABA2BABABABABDU2ABABEABAB3ABABABABABABABABABABA5BA5BABABABABABABABA4BABA2B&2AB&B&BABABABA&lD3ABED2B",
  "E7FE3FE4FEnG2F2GV4F&3K6V2TV&6E1gR4&8G2E1eGgF2&8R2Ia&6FiE6R3ERE2FIaEsF8R2EnFbG2&bREt&3F3GE1bFG2F4G2F2G3Rd&DIa&4R2",
  "E5FDE9IaE5&E15F6G2F2G2F2&9E3FE8FG&2Ia&2R4EgDE6V3EGFGE1eFEF3E2F2E5F2EFE&oE2DR2EbGF2G2R2ED2GF&aE6&2E6&2E6&9E7&E7&B",
  "17UD4B9DU2&4B28EzG2FG2FG2RGF&2Ia&6E8mc&cEn&4E1d&4$1kw%4xsEa6&2E2y&12B7&cB5&5EFEaSEd&E5&E&E2&E2&E30Uh&gEa3ONVgE1s",
  "&2E1i&7V&wEcTV3FgR7NOR&6FgRM2L2NONONONONONONONOR2NOR4L3R3&R4MNONONOR3SMS3&RTR2&4E5&E3r&2#&R3TR3NORSRMR2IaR2S3R2A",
  "qNROULUBqNSOSNORNOR2EaDE19D2Ev&3E6&2E6&2E6&2E3&3T2SUVT2&VS4V2&a#3V2&2Ec&Eq&Ej&E2&Ef&2Ee&yE3f&5R3&4K19&3V9J1hK4Vh",
  "K2V3&Vd&3V&1bV19F&3mEt&3E1d&fFKr&4EwK4&9EkJE8J&5E12F5&5Eu&RE10&4E8RJ5&16A14B14E26&2Ia&6A10&4B10&4E14&8E1g&bRAb&A",
  "f&A7&A2&Bb&Bf&B7&B2&3E1g&cE8n&9Em&aE8&oD6&D16&D9&1xE6&2E&E18&E2&3E&2En&RK8EnV2K7Ev&8K9&1cEj&E2&5K5EmK6&3REq&5R&1",
  "sE1k&4K2E2Kg&2K1aEF3&F2&5F4E4&E3&Et&2F3&4FK9&7R9&7EtK2REtK3&wE8VEsF2&4K5R7&9E1i&3R7Em&2K8Ej&5K8Ei&7R4&cK7&28E21&",
  "1jA1f&dB1f&7K6E10F4&8Ia&6IaE6Am&3F5&2Bm&62Kv&E16&F2M&2E2&gE3&1jF4EtKaE&8EmFbK4R5&mEiF4R4&12ElK7&kEn&9GFGE1hFfR7&",
  "4KkIaFE2F2E&9F3GE19G3F4G2F2R2#R4F&a#&2Ep&7Ia&6F3E10F5GF8&IaR4EG2E&8EzFR2E&9F2GE1cG3F9G2E4R4F4RGFIaERER3&Kk&bEi&E",
  "pG3F3G2FGF2R6FE2F&1qE7&E&E4&Ef&EaR&6E1bFG3F8&5Ia&6F2G2&E8&2E2&2Em&E7&E2&E5&F2EG2FG4&2G2&2G3&2E&6G&5E5G2&2F7&3F5&",
  "3vE1hG3F8G2F3GFE4R5IaR2&RFE3&uE1cG3F6GFG4F2GF2E2RE&8Ia&4mE1bG3F4&2G4F2GF2RnE4F2&yE1cG3F8G2FGF2R3E&bIa&6Rd&jE17FG",
  "FG2F6GFER&6Ia&6Ik&sEr&2F3G2F4GF5&4IaK2R3VE7&55E18G3F9GF2R&2sAwBwIaK9&cE8&2E&2E8&E2&EoG6&G2&2F2GFEGEGFR3&9Ia&1yE8",
  "&2E13G3F4&2F2G4FEREG&rEFaE14F6GEF4R8F&8EF6G2F3E1aFdGF2R3ER5&dE21&7Ra&52Ex&fIa&6E9&E11GF7&F6GFER5&aIaKj&3R2Eu&2Fm",
  "&GF7GF2GF2&21E7&E2&E12F6&3F&F2&F7EF&8Ia&6E6&E2&EwG5&F2&G2FGFE&7Ia&8mEjF2G2R2&7F2EGEd&EyG2F5&3G2FGFRdIa&2eE&fKlV8",
  "T4Vh&dREpm&2uJ33&R5&bE5g&218E2pR2&dEts#gFE6Ff&aE32z&5Eg7&5a1EuFiIa&1c6Eft&7Ev&Ia&4R2E27&Ia&6Eu&2F5R&aE1cF7R5V4D4",
  "RV&aIa&K7&El&5Ej&c0E19&3Ia&5iAwBwKnR4&2tE23&4FEG1j&7F4Dd&1sD2RDF&bG2&eE4qg&8Eye&16E9&6w7D4&D7&D2&E83&fE&tE3&2E&e",
  "E4&8Eb0&1s4E2z&5Ed&3E9&7Ea&2VF2R#4&318V6oIa&6Vc4&24F1a&2Fn&9V38&1oV6u&aV13&2V1oG2F3V3G6#8F8V2F7VuF4V1p&lV1uF3V&3",
  "eKk&cKk&cV2f&9Kp&3rAqBqAqB7&BiAqBqA&A2&2A&2A2&2A4&A8B4&B&B7&BbAqBqA2&A4&2A8&A7&BqA2&A4&A5&A&3A7&BqAqBqAqBqAqBqAq",
  "BqAqBqAqBs&2ApSBpSB6ApSBpSB6ApSBpSB6ApSBpSB6ApSBpSB6AB&2I1eVe8F1jV4F1eV8FVeFV2R5&fF5&Ff&uoBaEBk&6B6&5xF7&Fh&2F7&",
  "F2&F5&5D1q&xF&34E19&3F7D7&2Ia&4EV&8wEuF&hE18F4Ia&5T&cwErDF4Ia&5yEu&3Ia&dhE7&E4&E2&Ef&E5h&2K9F7&15AyByF7D&4Ia&4R2",
  "&ltK1nVK3TK4&24K19VKf&5eE4&Er&E2&E&2E&Ea&E4&E&E&6E&4E&E&E&E3&E2&E&2E&E&E&E&E&E2&E&2E4&E7&E4&E4&E&Ea&Eh&5E3&E5&Eh",
  "&1gS2&7iV18&4V2s&cVf&2Vf&Vf&V11&aKdV4h&1kVt&dV18&4V9&7V2&eV6&4aV6zU5Vk8&4Vh&3Vd&3V3b&4V2n&6Vc&4V&fVc&4V1k&8Va&6V",
  "14&8Vu&2Vc&4V2&1qV9g&cVe&2Vd&3Va&5V1k&7Vf&2Vb&6V9&7V43&V2kIa&smEwyo&wE37e&6E66&2E4g2&eE5rl&fEha&1wiEf2&15uE3t7&5",
  "E38g&f975#&u#2o&3kF6o&1e6o%1eke&2%1eke&2"])

/-- The letter of the general category of a character. -/
def category (c : Char) : Char := (categoryRuns.at? c.toNat).getD '&'

/-- Whether the general category of a character is one of `letters`. -/
def inCategories (letters : String) (c : Char) : Bool := letters.toList.contains (category c)

end ApiForge.Text
