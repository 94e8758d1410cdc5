/-!
Character classes of Unicode 14 beyond the first 128 code points. Each table of stretches gives,
from the first code point on and in turn, how many code points are outside of a class and how many
are in it; those behind the last stretch are outside.
-/

namespace SattLine.Text.Table

/-- Stretches of the letters beyond the first 128 code points. -/
def alphabeticStretches : Array Nat := #[
  170,1,10,1,4,1,5,23,1,31,1,458,4,12,14,5,7,1,1,1,129,5,1,2,2,4,1,1,6,1,1,3,1,1,1,20,1,83,1,139,8,
  166,1,38,2,1,6,41,71,27,4,4,45,43,35,2,1,99,1,1,15,2,7,2,10,3,2,1,16,1,1,30,29,89,11,1,24,33,9,2,
  4,1,5,22,4,1,9,1,3,1,23,25,7,11,5,24,1,6,17,42,58,54,3,1,18,1,7,10,15,16,4,8,2,2,2,22,1,7,1,1,3,4,
  3,1,16,1,13,2,1,3,14,2,10,1,8,6,4,2,2,22,1,7,1,2,1,2,1,2,31,4,1,1,19,3,16,9,1,3,1,22,1,7,1,2,1,5,
  3,1,18,1,15,2,23,1,11,8,2,2,2,22,1,7,1,2,1,5,3,1,30,2,1,3,15,1,17,1,1,6,3,3,1,4,3,2,1,1,1,2,3,2,3,
  3,3,12,22,1,52,8,1,3,1,23,1,16,3,1,26,3,2,1,2,2,30,1,4,8,1,3,1,23,1,10,1,5,3,1,31,2,1,2,15,2,17,9,
  1,3,1,41,2,1,16,1,5,3,8,3,24,6,5,18,3,24,1,9,1,1,2,7,58,48,1,2,12,7,58,2,1,1,1,5,1,24,1,1,1,10,1,
  2,9,1,2,5,1,1,21,4,32,1,63,8,1,36,27,5,115,43,20,1,16,6,4,4,3,1,3,2,7,3,4,13,12,1,17,38,1,1,5,1,2,
  43,1,333,1,4,2,7,1,1,1,4,2,41,1,4,2,33,1,4,2,7,1,1,1,4,2,15,1,57,1,4,2,67,37,16,16,86,2,6,3,620,2,
  17,1,26,5,75,6,8,7,18,13,19,14,18,14,13,1,3,15,52,35,1,4,1,67,89,7,5,2,34,1,1,5,70,10,31,49,30,2,
  5,11,44,4,26,54,23,9,53,82,1,93,47,17,8,54,30,13,2,10,44,26,36,41,3,10,36,2,9,7,43,2,3,41,4,1,6,1,
  2,3,1,5,192,64,278,2,6,2,38,2,6,2,8,1,1,1,1,1,1,1,31,2,53,1,7,1,1,3,3,1,7,3,4,2,6,4,13,5,3,1,7,
  116,1,13,1,16,13,101,1,4,1,2,10,1,1,3,5,6,1,1,1,1,1,1,4,1,11,2,4,5,5,4,1,52,2,2683,229,6,4,3,2,12,
  38,1,1,5,1,2,56,7,1,16,23,9,7,1,7,1,7,1,7,1,7,1,7,1,7,1,7,80,1,469,2,42,5,5,2,4,86,6,3,1,90,1,4,5,
  43,1,94,17,32,48,16,512,6592,64,22157,67,46,2,269,3,16,10,2,20,47,16,31,2,70,49,9,2,103,2,64,5,2,
  1,1,1,5,24,16,1,3,1,4,1,23,29,52,14,50,62,6,3,1,1,2,11,28,10,23,25,29,7,47,28,1,16,5,1,10,10,5,1,
  41,23,3,1,8,20,23,3,1,3,50,1,1,3,2,2,5,2,1,1,1,24,3,2,11,7,3,12,6,2,6,2,6,9,7,1,7,1,43,1,14,6,115,
  29,11172,12,23,4,49,8452,366,2,106,38,7,12,5,5,1,1,10,1,13,1,5,1,1,1,2,1,2,1,108,33,363,18,64,2,
  54,40,12,116,5,1,135,36,26,6,26,11,89,3,6,2,6,2,6,2,3,35,12,1,26,1,19,1,2,1,15,2,14,34,123,389,29,
  3,49,47,32,13,20,1,8,6,38,10,30,2,36,4,8,48,158,18,36,4,36,4,40,8,52,12,11,1,15,1,7,1,2,1,11,1,15,
  1,7,1,2,67,311,9,22,10,8,24,6,1,42,1,9,69,6,2,1,1,44,1,2,3,1,2,23,10,23,9,31,65,19,1,2,10,22,10,
  26,70,56,6,2,64,1,15,4,1,3,1,29,42,29,3,29,35,8,1,28,27,54,10,22,10,19,13,18,110,73,55,51,13,51,
  13,36,348,42,6,2,78,29,10,1,8,22,42,18,46,21,27,23,12,53,57,2,2,1,13,45,32,25,26,36,29,1,2,1,8,35,
  3,1,12,48,14,4,21,1,1,1,35,18,1,25,84,7,1,1,1,4,1,15,1,10,7,47,38,8,2,2,2,22,1,7,1,2,1,5,3,1,18,1,
  12,5,158,53,18,4,20,3,30,48,20,2,1,1,184,47,41,4,36,48,20,1,59,43,13,1,71,27,37,7,185,44,116,64,
  31,8,2,1,2,8,1,2,1,24,15,1,1,1,94,8,2,39,16,1,1,1,28,1,10,40,7,1,21,1,11,46,19,1,18,73,263,9,1,37,
  17,1,49,30,112,7,1,2,1,38,21,1,25,6,1,2,1,32,14,1,327,19,189,1,79,922,230,196,2636,97,15,1071,
  4049,583,8633,569,7,31,17,79,17,30,18,48,16,4,31,21,5,19,688,64,128,75,5,1,66,13,64,2,1,1,28,6136,
  8,1238,42,9,8935,4,1,7,1,2,1,291,45,3,17,4,8,396,2308,107,5,13,3,9,7,10,5990,85,1,71,1,2,2,1,2,2,
  2,4,1,12,1,1,1,7,1,65,1,4,2,8,1,7,1,28,1,4,1,5,1,1,3,7,1,340,2,25,1,25,1,31,1,25,1,31,1,25,1,31,1,
  25,1,31,1,25,1,8,1844,31,481,45,10,7,16,1,321,30,18,44,1268,7,1,4,1,2,1,15,1,197,59,68,7,1,1204,4,
  1,27,1,2,1,1,2,1,1,10,1,4,1,1,1,1,6,1,4,1,1,1,1,1,1,3,1,2,1,1,2,1,1,1,1,1,1,1,1,1,1,2,1,1,2,4,1,7,
  1,4,1,4,1,1,1,10,1,17,5,3,1,5,1,17,4420,42720,32,4153,7,222,2,5762,14,7473,3103,542,1506,4939]

/-- Stretches of the digits and other numerals that are no letters, beyond the first 128 code
points. -/
def numeralStretches : Array Nat := #[
  178,2,5,1,2,3,1441,10,134,10,198,10,412,10,118,10,4,6,108,10,118,10,118,10,2,6,110,13,115,10,8,7,
  103,10,104,7,7,19,109,10,96,10,118,10,70,20,268,10,70,10,719,20,881,3,239,10,6,10,22,10,300,10,
  128,11,165,10,6,10,182,10,86,10,134,10,6,10,1046,1,3,6,6,10,198,51,2,5,726,60,78,22,630,30,1385,1,
  777,1,25,9,14,3,343,4,138,10,30,8,1,15,32,10,39,15,29536,10,188,10,320,6,154,10,38,10,198,10,22,
  10,86,10,406,10,21270,10,493,45,12,57,17,2,341,27,36,4,29,1,8,1,134,5,202,10,942,8,25,7,39,9,75,5,
  22,6,160,2,2,16,2,46,64,9,52,2,30,3,75,5,104,8,24,8,41,7,330,6,48,10,294,31,158,10,42,4,112,7,134,
  30,128,10,60,10,144,10,7,20,251,10,342,10,118,10,374,10,102,10,102,12,420,19,93,10,758,29,227,10,
  70,10,534,21,1067,111,17905,10,86,10,134,10,1,7,798,23,25673,20,108,25,1109,50,2368,10,422,10,
  1485,9,128,10,791,59,1,3,1,4,76,45,1,15,962,13,2787,10]

/-- Stretches of the characters beyond the first 128 code points that a quoted text shows as they
are. -/
def printableStretches : Array Nat := #[
  161,12,1,714,2,6,4,7,1,1,1,20,1,397,1,38,2,50,2,3,1,55,8,27,4,6,17,22,1,192,1,48,2,59,2,101,14,59,
  2,49,2,15,1,28,2,1,1,11,5,31,9,74,1,161,1,8,2,2,2,22,1,7,1,1,3,4,2,9,2,2,2,4,8,1,4,2,1,5,2,25,2,3,
  1,6,4,2,2,22,1,7,1,2,1,2,1,2,2,1,1,5,4,2,2,3,3,1,7,4,1,1,7,17,10,3,1,9,1,3,1,22,1,7,1,2,1,5,2,10,
  1,3,1,3,2,1,15,4,2,12,7,7,1,3,1,8,2,2,2,22,1,7,1,2,1,5,2,9,2,2,2,3,7,3,4,2,1,5,2,18,10,2,1,6,3,3,
  1,4,3,2,1,1,1,2,3,2,3,3,3,12,4,5,3,3,1,4,2,1,6,1,14,21,5,13,1,3,1,23,1,16,2,9,1,3,1,4,7,2,1,3,2,1,
  2,4,2,10,7,22,1,3,1,23,1,10,1,5,2,9,1,3,1,4,7,2,6,2,1,4,2,10,1,2,13,13,1,3,1,51,1,3,1,6,4,16,2,26,
  1,3,1,18,3,24,1,9,1,1,2,7,3,1,4,6,1,1,1,8,6,10,2,3,12,58,4,29,37,2,1,1,1,5,1,24,1,1,1,23,2,5,1,1,
  1,6,2,10,2,4,32,72,1,36,4,39,1,36,1,15,1,13,37,198,1,1,5,1,2,377,1,4,2,7,1,1,1,4,2,41,1,4,2,33,1,
  4,2,7,1,1,1,4,2,15,1,57,1,4,2,67,2,32,3,26,6,86,2,6,2,640,1,28,3,89,7,22,9,24,9,20,12,13,1,3,1,2,
  12,94,2,10,6,10,6,14,1,11,6,89,7,43,5,70,10,31,1,12,4,12,4,1,3,42,2,5,11,44,4,26,6,11,3,62,2,65,1,
  29,2,11,6,10,6,14,2,31,49,77,3,47,1,116,8,60,3,15,3,60,7,43,2,11,8,43,5,534,2,6,2,38,2,6,2,8,1,1,
  1,1,1,1,1,31,2,53,1,15,1,14,2,6,1,19,2,3,1,9,17,24,8,47,17,2,2,27,1,13,3,33,15,33,15,140,4,663,25,
  11,21,1812,2,32,1,349,5,45,1,1,5,1,2,56,7,2,14,24,9,7,1,7,1,7,1,7,1,7,1,7,1,7,1,7,1,126,34,26,1,
  89,12,214,26,12,5,63,1,86,2,103,5,43,1,94,1,84,12,47,1,29293,3,55,9,348,20,184,8,203,5,2,1,1,1,5,
  24,59,3,10,6,56,8,70,8,12,6,116,11,30,3,78,1,11,4,33,1,55,9,14,2,10,2,103,24,28,10,6,2,6,2,6,9,7,
  1,7,1,60,4,126,2,10,6,11172,12,23,4,49,8452,366,2,106,38,7,12,5,5,26,1,5,1,1,1,2,1,2,1,125,16,445,
  2,54,7,1,32,42,6,51,1,19,1,4,4,5,1,135,4,190,3,6,2,6,2,6,2,3,3,7,1,7,13,2,2,12,1,26,1,19,1,2,1,15,
  2,14,34,123,5,3,4,45,3,88,1,13,3,1,47,46,130,29,3,49,15,28,4,36,9,30,5,43,5,30,1,37,4,14,42,158,2,
  10,6,36,4,36,4,40,8,52,11,12,1,15,1,7,1,2,1,11,1,15,1,7,1,2,67,311,9,22,10,8,24,6,1,42,1,9,69,6,2,
  1,1,44,1,2,3,1,2,23,1,72,8,9,48,19,1,2,5,33,3,27,5,1,64,56,4,20,2,50,1,2,5,8,1,3,1,29,2,3,4,10,7,
  9,7,64,32,39,4,12,9,54,3,29,2,27,5,26,7,4,12,7,80,73,55,51,13,51,7,46,8,10,294,31,1,42,1,3,2,2,78,
  40,8,42,22,26,38,28,20,23,9,78,4,36,9,62,1,5,13,25,7,10,6,53,1,18,8,39,9,96,1,20,11,18,1,44,65,7,
  1,1,1,4,1,15,1,11,6,59,5,10,6,4,1,8,2,2,2,22,1,7,1,2,1,5,1,10,2,2,2,3,2,1,6,1,5,7,2,7,3,5,139,92,
  1,5,30,72,8,10,166,54,2,38,34,69,11,10,6,13,19,58,6,10,54,27,2,15,4,23,185,60,100,83,12,8,2,1,2,8,
  1,2,1,30,1,2,2,12,9,10,70,8,2,46,2,11,27,72,8,83,13,73,263,9,1,45,1,14,10,29,3,32,2,22,1,14,73,7,
  1,2,1,44,3,1,1,2,1,9,8,10,6,6,1,2,1,37,1,2,1,6,7,10,310,25,183,1,15,50,13,923,102,111,1,5,11,196,
  2636,99,13,1071,4049,583,8633,569,7,31,1,10,4,81,1,10,6,30,2,6,10,70,10,10,1,7,1,21,5,19,688,91,
  101,75,4,57,7,17,64,5,11,2,14,6136,8,1238,42,9,8935,4,1,7,1,2,1,291,45,3,17,4,8,396,2308,107,5,13,
  3,9,7,10,2,4,4704,46,2,23,9,116,60,246,10,39,2,74,8,112,21,70,154,20,12,87,9,25,135,85,1,71,1,2,2,
  1,2,2,2,4,1,12,1,1,1,7,1,65,1,4,2,8,1,7,1,28,1,4,1,5,1,1,3,7,1,340,2,292,2,702,15,5,1,15,1104,31,
  225,7,1,17,2,7,1,2,1,5,213,45,3,14,2,10,4,2,320,31,17,58,5,1,1248,7,1,4,1,2,1,15,1,197,2,16,41,76,
  4,10,4,2,785,68,76,61,194,4,1,27,1,2,1,1,2,1,1,10,1,4,1,1,1,1,6,1,4,1,1,1,1,1,1,3,1,2,1,1,2,1,1,1,
  1,1,1,1,1,1,1,2,1,1,2,4,1,7,1,4,1,4,1,1,1,10,1,17,5,3,1,5,1,17,52,2,270,44,4,100,12,15,2,15,1,15,
  1,37,10,174,56,29,13,44,4,9,7,2,14,6,154,984,5,16,3,13,3,116,12,89,7,12,4,1,15,12,4,56,8,10,6,40,
  8,30,2,2,78,340,12,14,2,5,3,5,3,7,9,29,3,11,5,6,10,10,6,8,8,7,9,147,1,55,37,10,1030,42720,32,4153,
  7,222,2,5762,14,7473,3103,542,1506,4939,716213,240]

/-- Stretches of the marks and signs that a test for the end of a word skips, beyond the first 128
code points. -/
def caseIgnorableStretches : Array Nat := #[
  168,1,4,1,1,1,4,1,2,2,503,192,4,2,4,1,9,2,1,1,251,7,207,1,5,1,49,45,1,1,1,2,1,2,1,1,44,1,11,6,10,
  11,1,1,35,1,10,21,16,1,101,8,1,10,1,4,33,1,1,1,30,27,91,11,58,11,4,1,2,1,24,24,43,3,44,1,7,2,6,8,
  41,58,55,1,1,1,4,8,4,1,3,7,10,2,13,1,15,1,58,1,4,4,8,1,20,2,26,1,2,2,57,1,4,2,4,2,2,3,3,1,30,2,3,
  1,11,2,57,1,4,5,1,2,4,1,20,2,22,6,1,1,58,1,2,1,1,4,8,1,7,2,11,2,30,1,61,1,12,1,50,1,3,1,55,1,1,3,
  5,3,1,4,7,2,11,2,29,1,58,1,2,1,6,1,5,2,20,2,28,2,57,2,4,4,8,1,20,2,29,1,72,1,7,3,1,1,90,1,2,7,11,
  9,98,1,2,9,9,1,1,6,74,2,27,1,1,1,1,1,55,14,1,5,1,2,5,11,1,36,9,1,102,4,1,6,1,2,2,2,25,2,4,3,16,4,
  13,1,2,2,6,1,15,1,94,1,608,3,946,3,29,2,30,2,30,2,64,2,1,7,8,1,2,11,3,1,5,1,45,5,51,1,65,2,34,1,
  118,3,4,2,9,1,6,3,219,2,2,1,58,1,1,7,1,1,1,1,2,8,6,10,2,1,39,1,8,31,49,4,48,1,1,5,1,1,5,1,40,9,12,
  2,32,4,2,2,1,3,56,1,1,2,3,1,1,3,58,8,2,2,64,6,82,3,1,13,1,7,4,1,6,1,3,2,50,63,13,1,34,101,445,1,1,
  3,11,3,13,3,13,3,13,2,12,5,8,2,10,1,2,1,2,5,49,5,1,10,1,1,13,1,16,13,51,33,2955,2,113,3,125,1,15,
  1,96,32,47,1,469,1,36,4,3,5,5,1,93,6,93,3,28438,1,1250,6,270,1,98,4,1,10,1,1,28,4,80,2,14,34,78,1,
  23,3,103,3,3,2,8,1,3,1,4,1,25,2,5,1,151,2,26,18,13,1,38,8,25,11,46,3,48,1,2,4,2,2,17,1,21,2,66,6,
  2,2,2,2,12,1,8,1,35,1,11,1,51,1,1,3,2,2,5,2,1,1,27,1,14,2,5,2,1,1,100,5,9,3,121,1,2,1,4,1,20272,1,
  147,17,573,16,3,1,12,16,34,1,2,1,169,1,7,1,6,1,11,1,35,1,1,1,47,1,45,2,67,1,21,3,513,1,226,1,149,
  5,1029,6,1,42,1,9,582,3,1,2,5,4,40,3,4,1,165,2,573,4,387,2,153,11,49,4,123,1,54,15,41,1,2,2,10,3,
  49,4,2,2,2,1,4,1,10,1,50,3,36,5,1,8,62,1,12,2,52,9,10,4,2,1,95,3,2,1,1,2,6,1,160,1,3,8,21,2,57,2,
  3,1,37,7,3,5,195,8,2,3,1,1,23,1,84,6,1,1,4,2,1,2,238,4,6,2,1,2,27,2,85,8,2,1,1,2,106,1,1,1,2,6,1,
  1,101,3,2,4,1,5,259,9,1,2,256,2,1,1,4,1,144,4,2,2,4,1,32,10,40,6,2,4,8,1,9,6,2,3,46,13,1,2,406,7,
  1,6,1,1,82,22,2,7,1,2,1,2,122,6,3,1,1,2,1,7,1,1,72,2,3,1,1,1,347,2,5435,9,14007,5,59,7,9,4,1035,1,
  63,17,64,2,1,2,16395,4,1,7,1,2,3230,2,1,4,4700,46,2,23,544,3,9,16,2,7,30,4,148,3,1979,55,4,50,8,1,
  14,1,22,5,1,15,1360,7,1,17,2,7,1,2,1,5,261,14,368,1,61,4,1504,7,109,8,2735,5,789505,1,30,96,128,
  240]

/-- Stretches of the characters with a case, beyond the first 128 code points. -/
def casedStretches : Array Nat := #[
  170,1,10,1,4,1,5,23,1,31,1,195,1,4,4,208,1,27,192,4,2,2,3,3,1,1,6,1,1,3,1,1,1,20,1,83,1,139,8,166,
  1,38,9,41,2839,38,1,1,5,1,2,43,2,3,672,86,2,6,2178,9,7,43,2,3,64,44,63,13,1,34,101,278,2,6,2,38,2,
  6,2,8,1,1,1,1,1,1,1,31,2,53,1,7,1,1,3,3,1,7,3,4,2,6,4,13,5,3,1,7,261,1,4,1,2,10,1,1,3,5,6,1,1,1,1,
  1,1,4,1,6,4,1,2,4,5,5,4,1,17,32,3,2,817,52,1814,124,2,103,6,4,3,2,12,38,1,1,5,1,30994,46,18,28,
  134,78,1,23,3,4,1,59,5,2,1,1,1,5,27,2,3,1,821,43,5,9,7,80,20288,7,12,5,1033,26,6,26,1189,80,96,36,
  4,36,116,11,1,15,1,7,1,2,1,11,1,15,1,7,1,2,1731,51,13,51,2989,64,21856,64,25984,85,1,71,1,2,2,1,2,
  2,2,4,1,12,1,1,1,7,1,65,1,4,2,8,1,7,1,28,1,4,1,5,1,1,3,7,1,340,2,25,1,25,1,31,1,25,1,31,1,25,1,31,
  1,25,1,31,1,25,1,8,1844,10,1,20,2529,68,2028,26,6,26,6,26]

/-- The zeros of the decimal digit blocks beyond the first 128 code points; each is followed by
its digits one to nine. -/
def decimalZeros : Array Nat := #[
  1632,1776,1984,2406,2534,2662,2790,2918,3046,3174,3302,3430,3558,3664,3792,3872,4160,4240,6112,
  6160,6470,6608,6784,6800,6992,7088,7232,7248,42528,43216,43264,43472,43504,43600,44016,65296,
  66720,68912,69734,69872,69942,70096,70384,70736,70864,71248,71360,71472,71904,72016,72784,73040,
  73120,92768,92864,93008,120782,120792,120802,120812,120822,123200,123632,125264,130032]

/-- A run of capital letters: from `first` to `last` in steps of `stride`, each with its small
letter `shift` code points away. -/
structure CaseRun where
  first : Nat
  last : Nat
  stride : Nat
  shift : Int
  deriving Repr

namespace CaseRun

def one (capital : Nat) (shift : Int) : CaseRun := ⟨capital, capital, 1, shift⟩

def run (first last : Nat) (shift : Int) : CaseRun := ⟨first, last, 1, shift⟩

/-- Capital and small letters in turn. -/
def pairs (first last : Nat) : CaseRun := ⟨first, last, 2, 1⟩

end CaseRun

open CaseRun

/-- The capital letters beyond the first 128 code points whose small letter is one character,
the capital sigma apart. -/
def caseRuns : Array CaseRun := #[
  run 192 214 32, run 216 222 32, pairs 256 302, pairs 306 310, pairs 313 327, pairs 330 374,
  one 376 (-121), pairs 377 381, one 385 210, pairs 386 388, one 390 206, one 391 1,
  run 393 394 205, one 395 1, one 398 79, one 399 202, one 400 203, one 401 1, one 403 205,
  one 404 207, one 406 211, one 407 209, one 408 1, one 412 211, one 413 213, one 415 214,
  pairs 416 420, one 422 218, one 423 1, one 425 218, one 428 1, one 430 218, one 431 1,
  run 433 434 217, pairs 435 437, one 439 219, one 440 1, one 444 1, one 452 2, one 453 1,
  one 455 2, one 456 1, one 458 2, pairs 459 475, pairs 478 494, one 497 2, pairs 498 500,
  one 502 (-97), one 503 (-56), pairs 504 542, one 544 (-130), pairs 546 562, one 570 10795,
  one 571 1, one 573 (-163), one 574 10792, one 577 1, one 579 (-195), one 580 69, one 581 71,
  pairs 582 590, pairs 880 882, one 886 1, one 895 116, one 902 38, run 904 906 37, one 908 64,
  run 910 911 63, run 913 929 32, run 932 939 32, one 975 8, pairs 984 1006, one 1012 (-60),
  one 1015 1, one 1017 (-7), one 1018 1, run 1021 1023 (-130), run 1024 1039 80, run 1040 1071 32,
  pairs 1120 1152, pairs 1162 1214, one 1216 15, pairs 1217 1229, pairs 1232 1326, run 1329 1366 48,
  run 4256 4293 7264, one 4295 7264, one 4301 7264, run 5024 5103 38864, run 5104 5109 8,
  run 7312 7354 (-3008), run 7357 7359 (-3008), pairs 7680 7828, one 7838 (-7615), pairs 7840 7934,
  run 7944 7951 (-8), run 7960 7965 (-8), run 7976 7983 (-8), run 7992 7999 (-8),
  run 8008 8013 (-8), ⟨8025, 8031, 2, -8⟩, run 8040 8047 (-8), run 8072 8079 (-8),
  run 8088 8095 (-8), run 8104 8111 (-8), run 8120 8121 (-8), run 8122 8123 (-74), one 8124 (-9),
  run 8136 8139 (-86), one 8140 (-9), run 8152 8153 (-8), run 8154 8155 (-100), run 8168 8169 (-8),
  run 8170 8171 (-112), one 8172 (-7), run 8184 8185 (-128), run 8186 8187 (-126), one 8188 (-9),
  one 8486 (-7517), one 8490 (-8383), one 8491 (-8262), one 8498 28, run 8544 8559 16, one 8579 1,
  run 9398 9423 26, run 11264 11311 48, one 11360 1, one 11362 (-10743), one 11363 (-3814),
  one 11364 (-10727), pairs 11367 11371, one 11373 (-10780), one 11374 (-10749), one 11375 (-10783),
  one 11376 (-10782), one 11378 1, one 11381 1, run 11390 11391 (-10815), pairs 11392 11490,
  pairs 11499 11501, one 11506 1, pairs 42560 42604, pairs 42624 42650, pairs 42786 42798,
  pairs 42802 42862, pairs 42873 42875, one 42877 (-35332), pairs 42878 42886, one 42891 1,
  one 42893 (-42280), pairs 42896 42898, pairs 42902 42920, one 42922 (-42308), one 42923 (-42319),
  one 42924 (-42315), one 42925 (-42305), one 42926 (-42308), one 42928 (-42258),
  one 42929 (-42282), one 42930 (-42261), one 42931 928, pairs 42932 42946, one 42948 (-48),
  one 42949 (-42307), one 42950 (-35384), pairs 42951 42953, one 42960 1, pairs 42966 42968,
  one 42997 1, run 65313 65338 32, run 66560 66599 40, run 66736 66771 40, run 66928 66938 39,
  run 66940 66954 39, run 66956 66962 39, run 66964 66965 39, run 68736 68786 64,
  run 71840 71871 32, run 93760 93791 32, run 125184 125217 34]

end SattLine.Text.Table
