import ApiForge.Text.Basic
import ApiForge.Text.Category

/-!
# Binary properties

A property is a set of general categories together with the runs of code points that differ from it. Each run is
written as its distance from the end of the run before and its length, both in base 36; a length of one is left out.
-/

namespace ApiForge.Text

/-- The names of the properties, their categories and the runs that differ. -/
def propertyTable : List (String × String × String) := [
  ("asciihexdigit ahex", "", "1c,a 7,6 q,6"),
  ("alphabetic alpha", "ABCDEGJ", String.join [
  "n9 h6,e 1 1,2 1,2 1 20,b 1c,d 1,7 g 2t,7 4,4 2,2 4 z u,g 2u,b 2t,2 3,9 1,3 1,4 4n,c 3,7 6,j 1j 6,8 c,3 a,2 t ",
  "1r,4 t,2 t,2 1q,2 4,2 2,2 4 u,2 3 b,2 1q,5 1,2 p,2 m,3 4 1p 1,4 h b,2 u 1p 1r 3 1l,3 5,3 1,3 8,2 b,2 t 1p 6 5 ",
  "l,2 s,2 1r,4 t,2 t 28,3 1 2i 2,7 i 2r 2,6 1,2 g 34,2 1d,e 1,4 9,b 1,10 34,4 1,5 6,2 p,2 4,3 g,4 d 2,2 6 f ",
  "19w,2 1 s,3 t,2 u,2 1v,7 8 5a,2 y 3a,3 4,2 9 6c,2 2 1m 1,7 3 2,8 6,2 22,2 b,3 1d,4 1e,5 1 5 1 1n,2 w,4 2,3 ",
  "1,2 1m,2 3 1,5 1k,8 2 2a,2 2e l 6n,e 1c1,1g 1rq,w fi,2 nd0,8 y,2 8b,3 c,3 11 8 p,2 4e 1l 12,5 s,b 1 18,3 1f,4 ",
  "2,2 2 10 1v,6 2,2 2,2 c 8 1b 1f 1,3 2,2 5 19,2 6v 2 3 fn5 1nb,5 g5,1g st,3 1,2 5,4 lw,4 y,s a,m 85,2 l,3 8s ",
  "1i,e 19,2 b,2 1d,4 b 1p,3 10,5 1,6 25,2 1g,9 1 e 2n,3 2,2 1 6 2 4d 3,6 n,2 1q c 6i,8 3,2 32,6 1 4,2 6p,4 6,2 ",
  "u,2 2d,8 2 2 2y 1 2,7 2u,3 2,4 1,4 78,9 77,3 46,4 2,2 11,a 16,4 2,4 i,6 2,3 1a,d 89,x 27,7 1,6 2c,m 2,7 1,2 ",
  "1,2 3e,6 3 1,2 1,3 1 3 20,2 3 9p,2 b,2 1g,5 5,2 466,32z 5qd,u 2ea,19 de 1r,4 f7v 43q,2 6,6 2vh,7 1,h 2,7 1,2 ",
  "1,5 2s 11c,u nt 1k8,q 6,q 6,q 1dgm,ha"]),
  ("bidicontrol bidic", "", "17g 54h,2 q,5 1j,4"),
  ("bidimirrored bidim", "NOPQ", String.join [
  "1o 1 6ah,8 80 5c,4 3,6 3 3,2 3,4 1,4 1 1 4,9 5 1,i 5,4 9,2 1 1,8 2,v 2,4 5 9,2 2,j 5,2 9,5 2,2 4,o 2,g w,2 wu ",
  "2,2 3,2 1,3 5,4 5,3 3,4 c5,6 1,e 8 7,6 3 4,5 1,2 6 4 1,3 2,2 a,6 g,j 1,4 2 1 2 1,4 5,2 6,3 o,2 b,2 4,4 1,2 ",
  "2,2 4,17 2,8 1,14 5 1 3,5 5,3 4 3,5 1 74 g3 d6,3 14im,2 5z,2 s,g 2,2 r,2 52 1 16m4 1l 1l 1l 1l"]),
  ("caseignorable ci", "DFHU#", "13 6 b 3g jz d3 44 iq 4n4,2 a 2 17u3 1q 2 4x 6 b 2tq,5 b2 g81,i"),
  ("cased", "ABCD", String.join [
  "4q f e6,7 6,c q 1 2e 1a dg 6e 4k,2 7h,2 4 v 9 3 4g 4n yc 3j 1sg 2z gz cw,6 b,2 yd,w mu,1g 1ol 5b d1 17,5 5 ",
  "2p,2 2l,3 lxy yq,6 7i 36 47,9 2w 1u,3 c,3 du m 3t 30 l,2 gor 19,2 1k1,2 159,m a,m iii,4 un,d 1s,2 1 cng,4 1,7 ",
  "1,2 9q0,7 q5 v3 1k4,q 6,q 6,q"]),
  ("changeswhencasefolded cwcf", "AC", String.join [
  "51 15 2x 1h cl 3g d,7 p,2 3 b5 2s8,2e 2,6 1oi,a eo,2 6c,8 8,8 8,8 a,3 2 a,3 2 16,3 2 7e 4 3,3 2,3 2 3,5 6 3 ",
  "3,2 2,2 1 a,2 5 q,g na,q pvf,2 d 1 pf,28 fnk,7 c,5 3lk,m 138a,q q,q q,q q 1,2 2 2,2 2,4 1,8 q,q q,2 1,4 2,8 ",
  "1,7 r,2 1,4 1,5 1 3,7 r,q q,q q,q q,q q,q q,q u,p x,p x,p x,p x,p x"]),
  ("changeswhencasemapped cwcm", "ABC", String.join [
  "8o 2c d e,2 e 3 2q i,6 r 2 1 2,3 2 1 2 5,2 1 2,2 1,7 1,2 1 2,3 6,5 1 1,8 2,h 45 3w,3 13 9v 13 4jk,2 39,18 ",
  "1r,d 2,3 1,g 1,c 75,2 1 gy 4 2,a 1 3,5 6 3 3,2 1,3 1,2 4 2,4 5,5 m,w mu,1g 1hj 2 2,5 2w o5n,2 1r,8 l 6 p r,3 ",
  "5 1 4,3 t mt,z 1,7 5,9 jc7,m a,m 137e,2d 1,1z 1,2 2 2,2 2,4 1,c 1 1,7 1,1t 1,4 2,8 1,7 1,s 1,4 1,5 1 3,7 1,9g ",
  "2,p 1,p 1,v 1,p 1,v 1,p 1,v 1,p 1,v 1,p 1,8 1f8,a 1,k 6,6"]),
  ("changeswhenlowercased cwl", "AC", String.join [
  "r6,3 4vo vs 4 3,3 2,3 2 3,5 6 3 3,2 2,2 1 a,2 5 q,g na,q pvf,2 d 1 k1f,m 138a,q q,q q,q q 1,2 2 2,2 2,4 1,8 ",
  "q,q q,2 1,4 2,8 1,7 r,2 1,4 1,5 1 3,7 r,q q,q q,q q,q q,q q,q u,p x,p x,p x,p x,p x"]),
  ("changeswhentitlecased cwt", "B", String.join [
  "8o 2c d e,2 e 3 5 2 2 12 1b i,6 r 2 1 2,3 2 1 2 5,2 1 2,2 1,7 1,2 1 2,3 6,5 1 1,8 2,h 45 52 9v 13 287,17 2,3 ",
  "2a2 39,18 1r,d 2,3 1,g 1,c 75,2 1 h6 3,2 3 r 4 4 2,2 8,4 12,g nk,q 1hj 2 2,5 2w o5n,2 1r,8 l 6 p t 5 1 5 u ",
  "mt,z 1,7 5,9 jd3,m 1384,q q,7 1,i q,q q,4 1 1,7 1,b q,q q,q q,q q,q q,q q,q q,q q,q q,s s,p 1,6 q,p 1,6 q,p ",
  "1,6 q,p 1,6 q,p 1,6 1 1f8,a 1,k 6,6"]),
  ("changeswhenuppercased cwu", "BC", String.join [
  "8o 2c d e,2 e 3 2q i,6 r 2 1 2,3 2 1 2 5,2 1 2,2 1,7 1,2 1 2,3 6,5 1 1,8 2,h 45 52 9v 13 4jl 39,18 1r,d 2,3 ",
  "1,g 1,c 75,2 1 h6 3,2 3 r 4 4 2,2 8,4 12,g nk,q 1hj 2 2,5 2w o5n,2 1r,8 l 6 p t 5 1 5 u mt,z 1,7 5,9 jd3,m ",
  "1384,q q,7 1,i q,q q,4 1 1,7 1,b q,q q,q q,q q,q q,q q,q q,q q,q q,s s,p 1,6 q,p 1,6 q,p 1,6 q,p 1,6 q,p 1,6 ",
  "1 1f8,a 1,k 6,6"]),
  ("dash", "M", "6dv 13 f au"),
  ("defaultignorablecodepoint di", "", String.join [
  "4t ip jw 282,2 18z,2 2d,5 1kr,5 q,5 1d,g 3ck 14ez,g 6n 4g 27,9 119j,4 43z,8 h405,35s"]),
  ("deprecated dep", "", "95 10p 1s3 1 1m1,2 1qd,6 jd,2 jh06"),
  ("diacritic dia", "DU", String.join [
  "53 g8,27 1,8 5,6 80,5 7d,h 1,r 1 1,2 1 3f a,8 4,2 3q,2 9,3 1v,r 2j,b 1m,9 6 t,3 9 3 2n f,8 16,9 g,s 1p g 3,4 ",
  "2v g 32 g 32 g 1b,3 1o g 7 3b 32 g 32 g 31,2 g 3g 3f,7 1 2z b 1,5 23,2 r 1 1 4,2 1u,3 1,2 1q 34 1,2 14,2 4,5 ",
  "p,7 1 a,2 2o gw,3 qc,2 4z,b 3 5 2t 6t,3 8p,8 2 13 8,f 2,b 2w f 12,9 1i,2 3u,2 48,p 4 6 2,3 3i y,11 4,c 11,b ",
  "hd d g,d 2cf,2 35,3 3h id 10,6 1,5 5 2l,2 2,2 2m,2 lxy yq,6 7i 2q c,2 36,2 3i 3l,3 5r r,i 1l,4 10 2n c e l,2 ",
  "3t a,3 1t,4 q l,2 1 6t,2 fn4 43,h gt,g xc 1l0,2 fv,6 d1,3 1y,b 1d,4 5c 15 20,2 3c,2 1q 24 9,3 2w,2 4y,2 29 g ",
  "o,7 3,5 5p 3 3f,2 6z,2 3i 3a,2 37 7h,2 76,2 4 4c 2b i 29 bp 76 1,2 29 4hb,f asa,5 1n,7 9,4 uj,4 25,2 1 c,2 ",
  "iry,1a 2,n f4,3 3,6 8,8 2,7 u,4 32a,e a8 1p,4 e3 ro,7 31,3 1,4 23z,5"]),
  ("emoji", "", String.join [
  "z 6 5,a 33 4 68d c 60 m 2i,6 f,2 a7,2 c 4m p,b 4,3 5j 6f,2 a 9 1m,4 1,5 9 2 2,2 2 4 2 1,2 2 3 3,2 8,3 5 1 5,c ",
  "b,2 2 1,2 1 i 2,2 i,6 1 1,2 3,2 5 2,2 4,2 b,2 5,2 2 5,2 1 1,2 k,2 5,6 1,4 2 4 2 2,6 1 2 1 1 6 3 6 a,2 f 2 4 1 ",
  "4,3 1 b,2 1c,3 9 e e ac,2 cv,3 j,2 1f 4 yi c gp 1 2fze 5m 4g,2 c,2 e 2,a 23,q 1,2 n k 2,9 l,2 4u,y 2,34 2,2 ",
  "1,3 2,2b 2,3 1,7b 1,1r b,6 1,o 7,2 2,8 c 2,4 2 4,2 d,2 2 8,2 9 5,3 c,3 8,3 2 1 4 6 3 6,2e 1c,1y 5,8 2,3 4,a 3 ",
  "1,2 3 2,a 6b,c 4 7v,1b 1,a 1,55 34,d 3,9 7,1a 1,7 8,e 4,9 7,9"]),
  ("emojicomponent ecomp", "", "z 6 5,a 6ab 5x 17or 1c5y,q e3,5 14g,4 gw30,2o"),
  ("emojimodifier emod", "", "2qrf,5"),
  ("emojimodifierbase ebase", "", String.join [
  "7j1 63 g,4 2iyf 1o,3 2 2,3 39,2 2,b l,j 3 4,3 1,3 7 1 o 5l,2 4 l 4,2 4u,3 3,5 2b g,3 9 b fz 2 8,8 6 9,a 2,3 ",
  "1k 1p,2 1,2 1 h,3 1,d 6d,3 16,9"]),
  ("emojipresentation epres", "", String.join [
  "6xm,2 5p,4 3 2 eh,2 l,2 1e,c 17 j d 8,2 h,2 5,2 8 5 l 7,2 1 4 2 7 4,2 s z 1 4,3 1 1p,3 o e nv,2 1f 4 2hf2 5m ",
  "5a 2,a 23,q 1 o k 2,5 1,3 l,2 4u,x c,9 1,1y 1,m c,17 4,5 c,h 3 3,1z 1 1,57 2,1r d,4 1,o i q,2 d 2e,2d 1c,1y 6 ",
  "3,3 2,3 4,4 b,2 7,9 6b,c 4 7v,1b 1,a 1,55 34,d 3,9 7,1a 1,7 8,e 4,9 7,9"]),
  ("extendedpictographic extpict", "", String.join [
  "4p 4 68d c 60 m 2i,6 f,2 a7,2 c 2n 1y p,b 4,3 5j 6f,2 a 9 1m,4 1,6 1,c 1,36 a,3a 2,b 1 1 6 3 6 a,2 f 2 4 1 ",
  "4,3 1 b,5 19,3 9 e e ac,2 cv,3 j,2 1f 4 yi c gp 1 2fza,74 d,3 v 1o,6 c,2 e 2,a i,1l r,f a k 2,9 1,4 9,c2 5,8u ",
  "8,7e 1c,3k 38,c 2d,17 c,4 1k,8 a,6 14,8 u,2a c,1b 1,a 1,c9 74,se"]),
  ("extender ext", "", String.join [
  "53 ew,2 oe c9 nu kw 3j 1tv 1k gz b2 1w 3ux 17,5 2v,2 2l,3 lxy 16e qq m 3t 30 l,2 gor 1lc,2 2ca h4,3 y7 fxl,2 ",
  "ws,2 1 me0,2 1l2,3"]),
  ("graphemebase grbase", "ABCDEGIJKLMNOPQRSTUVW", String.join [
  "1xa o 9y o 2u o 6i i,2 2v o 3b f 2mt o,2 1b 7d,2 1i4,3 2c2,4 1a,2 c4,2 9 na3,3 c,3 hc1,2 17k,1g 1fw,12 a,m ",
  "8s,3 vt o 9k c 6p 80,k gc i7,x f,a 4ti,32z 5qd,u i,a 2di,19 3,a io6,6y 6,c4 j5 8,5 40t,u 3,a 3p3,a 4,2 cn 5 ",
  "1a 7 l 2 9 69,11 1beo,ha"]),
  ("graphemeextend grext", "FH#", String.join [
  "4t 11u,6 m 5c 1d ao,2 5 22 63 o 9y o 2u o 6i i,2 2v o 3b f 20e me yd 1,3 q,5 1d,5 1,a 33y,2 14un 4e,2 2h,3 ",
  "2nh,5 b2 cg f hc o 9k c 6p ow 5bz,g 8v2,i i28,4 43l 8,d h406"]),
  ("hexdigit hex", "", "1c,a 7,6 q,6 1eax,a 7,6 q,6"),
  ("idsbinaryoperator idsb", "", "9gw,2 2,8"),
  ("idstrinaryoperator idst", "", "9gy,2"),
  ("idcontinue idc", "ABCDEFGIJL", String.join [
  "53 jz zz 24x,9 19k j2,2 wd l 2kg h7,2 nji,3 c,3 ijn,1g 1fw,12 3,5 2,m 8s,3 1j 1jn,k yk,x f,a 4ti,32z 5qd,1m ",
  "2di,19 3,a iuu,a 4wm,u 3,a 1fqt,ha"]),
  ("idstart ids", "ABCDEJ", String.join [
  "4ud,2 si,2 wd l 2kg h7,2 nji,3 c,3 ijn,1g 1g6,s a,m 8s,3 2kb,x 4u7,32z 5qd,u 2ea,19 ns3,u 1fr6,ha"]),
  ("ideographic ideo", "", String.join [
  "9hi,2 p,9 e,3 qt,534 1s,g74 hkw,a6 2,2y n4a r,4qg 8,ye 16,9 76v,b0 f7o,wyo w,37e 6,66 2,4g2 e,5rl 2e7,f2 ",
  "15u,3t7 5,38g"]),
  ("joincontrol joinc", "", "6bw,2"),
  ("logicalorderexception loe", "", "2tc,5 3f,5 25s,3 2 smy,2 2 1,2"),
  ("lowercase lower", "BD", String.join [
  "4q f e6,7 6,c q 1 2e 1a dg 6e 4k,2 7h,2 4 v 9 3 4g 4n yc 3j 1sg 2z gz cw,6 c yt,g nk,q 1ol 5b d1 17,5 5 2p,2 ",
  "2l,3 lxy yq,6 7i 36 47,9 2w 1w d dv m 3t 30 l,2 gor 19,2 1k1,2 165,m iii,4 un,d 1s,2 1 cng,4 1,7 1,2 9q0,7 q5 ",
  "v3"]),
  ("math", "S", String.join [
  "2m oh,3 2 q,2 2,2 5k0 r,3 b w,4 o,2 e,2 1t,d 4 3,2 4,5 i 4 2,a 1 3,5 6 3,2 2,2 1,3 1,6 3,4 5,5 23,5 2,4 1,2 ",
  "1,2 1 1,5 2,2 4,2 4,i 2,2 1 1,7 1 6,2 82,4 4o,2 1 o h cd,2 c,9 5,5 5,2 2,2 3,5 e 1 2,6 o,2 1l 1 t,4 9,2 9i,2 ",
  "v,a b7,m 1r,4 w,2 15yb 1 4 5v 1 160x,2d 1,1z 1,2 2 2,2 2,4 1,c 1 1,7 1,1t 1,4 2,8 1,7 1,s 1,4 1,5 1 3,7 1,9g ",
  "2,p 1,p 1,v 1,p 1,v 1,p 1,v 1,p 1,v 1,p 1,8 2,1e 4cg,4 1,r 1,2 1 2 1,a 1,4 1 1 6 4 1 1 1,3 1,2 1 2 1 1 1 1 ",
  "1,2 1 2,4 1,7 1,4 1,4 1 1,a 1,h 5,3 1,5 1,h"]),
  ("noncharactercodepoint nchar", "", String.join [
  "1e4w,w em,2 1eke,2 1eke,2 1eke,2 1eke,2 1eke,2 1eke,2 1eke,2 1eke,2 1eke,2 1eke,2 1eke,2 1eke,2 1eke,2 1eke,2 ",
  "1eke,2 1eke,2"]),
  ("patternsyntax patsyn", "", String.join [
  "x,f a,7 q,4 1 q,4 y,7 1 1,2 1 1,2 4 4 3 n v 654,o 8,f 2,j 1,a 8h,k0 4g,hi u,vg e8,3k ap,3 4,p f 14i5,2 79,2"]),
  ("patternwhitespace patws", "XY", "9,5 i 2s 688,2"),
  ("quotationmark qmark", "", "y 4 3n f 670,8 p,2 2rr cp,4 d,3 14pt,4 59 4 2i,2"),
  ("radical", "", "96o,q 1,2h c,5y"),
  ("regionalindicator ri", "", "2qcm,q"),
  ("sentenceterminal sterm", "", String.join [
  "x c g 11l 43,3 50 17,3 6u 1p 1 3,2 85,2 1d0,2 ly 4,2 lh 5i,2 5o 5 8q,2 9u,4 4u,2 2,2 t,2 58,2 1t,2 qk,2 9,3 ",
  "2qs d m,2 bx n3w 7i,2 6b 3 am,2 2e,2 2n 48,2 43,3 40,2 6x g9y 3,2 4p c g 1t 25w,2 zh,5 18,4 59,2 39,4 3j,3 ",
  "3l,2 6 g,2 2g,2 1,2 30 bl,2 ad,2 5,f 2x,2 6x,3 ed 1 6z,2 2f,2 bo,2 j8,2 22,2 euh,2 3p 1t,2 b nn feu 5wo"]),
  ("softdotted sd", "", String.join [
  "2x,2 5g 7t u 1g k 8w 2q 1 4y1 1f d 3 3o 4d bp 5y,2 27m 2bol,2 1e,2 1e,2 1e,2 1e,2 1e,2 1e,2 1e,2 1e,2 1e,2 ",
  "1e,2 1e,2 1e,2 1om 8h,2 q"]),
  ("terminalpunctuation term", "", String.join [
  "x a 1 b,2 3 n2 8 e9 1l 20 e 1,3 50 17,b 1 6j,2 1i,f v 79,2 z8,2 4s 4,6 8n,2 lx,8 lh 3g,3 1z,2 4d,3 3 13,4 2,2 ",
  "8q,2 9u,4 4u,2 1,3 t,2 58,5 1q,2 qk,2 9,3 2qs d 4 a 1,2 3,2 bw,2 n3v,2 7h,3 6b,5 am,2 2e,2 2n 47,3 43,3 3j ",
  "g,2 6x g9w,3 1,4 4p a 1 b,2 3 1t 2 u2 1c w6 5j 8m,2 48,6 1w,6 2h,4 qg,5 18,4 59,7 34,4 3j,3 3l,2 6 g,2 2g,5 ",
  "30 bl,3 c,2 9y,4 3,f 2x,2 6x,3 ed 1 6z,2 2f,2 4,2 bi,3 19 hx,2 22,2 10r,5 dtl,2 3p 1t,3 a nm,2 feu 5wn,4"]),
  ("unifiedideograph uideo", "", String.join [
  "a9s,534 1s,g74 hse,2 1 1,2 a 1 1,2 2,3 1fpy,wyo w,37e 6,66 2,4g2 e,5rl 3z3,3t7 5,38g"]),
  ("uppercase upper", "A", "5mx ye,g na,q pvf,2 d 1 k1f,m 18zu,q 6,q 6,q"),
  ("variationselector vs", "", "4qz,3 1 19f4,g i9yo,6o"),
  ("whitespace space wspace", "WXY", "9,5 3b"),
  ("xidcontinue xidc", "ABCDEFGIJL", String.join [
  "53 jm c zz 24x,9 19k j2,2 wd l 2kg o0r,3 c,3 gox,6 ba,2 38 1 1 1 1 1 1 1 1fl,1g 1fw,12 3,5 2,m 8s,3 1j 1jn,k ",
  "yk,x f,a 4ti,32z 5qd,1m 2di,19 3,a iuu,a 4wm,u 3,a 1fqt,ha"]),
  ("xidstart xids", "ABCDEJ", String.join [
  "oq 248 3j 1xt,2 si,2 wd l 2kg o0r,3 c,3 gox,6 ba,2 38 1 1 1 1 1 1 1 7z,2 17k,1g 1g6,s a,m 8s,3 2kb,x 4u7,32z ",
  "5qd,u 2ea,19 ns3,u 1fr6,ha"])]

/-- A set of categories and the code points whose membership differs from it, as half-open ranges. -/
structure Property where
  letters : String
  exceptions : List (Nat × Nat)
  deriving DecidableEq

/-- Reads the exceptions of a property. -/
def readExceptions (table : String) : List (Nat × Nat) :=
  let step := fun (st : List (Nat × Nat) × Nat) (w : List Char) =>
    let (gap, size) := match pieces ',' w with
      | [g, n] => (value36 g, value36 n)
      | _ => (value36 w, 1)
    let first := st.2 + gap
    ((first, first + size) :: st.1, first + size)
  if table.isEmpty then [] else ((pieces ' ' table.toList).foldl step ([], 0)).1.reverse

/-- Whether a character has a property. -/
def Property.holds (p : Property) (c : Char) : Bool :=
  inCategories p.letters c != p.exceptions.any fun r => r.1 ≤ c.toNat && c.toNat < r.2

/-- The property with a given name. -/
def Property.find? (name : String) : Option Property :=
  (propertyTable.find? fun row => (split ' ' row.1).contains name).map fun row => ⟨row.2.1, readExceptions row.2.2⟩

/-- The characters that extend the grapheme before them. -/
def graphemeExtend : Property := (Property.find? "graphemeextend").getD ⟨"", []⟩

/-- The characters that count as alphabetic. -/
def alphabetic : Property := (Property.find? "alphabetic").getD ⟨"", []⟩

end ApiForge.Text
