/-! Letters in upper case of all scripts, as of Unicode 17.0. -/
namespace InfoObject.Text

/-- Both ends of each run belong to it, and what is a number of steps from the first one. -/
def upperRuns : List (Nat × Nat × Nat) :=
  [(65,90,1),(192,214,1),(216,222,1),(256,310,2),(313,327,2),(330,376,2),(377,381,2),(385,386,1),(388,390,2),
   (391,393,2),(394,395,1),(398,401,1),(403,404,1),(406,408,1),(412,413,1),(415,416,1),(418,422,2),(423,425,2),
   (428,430,2),(431,433,2),(434,435,1),(437,439,2),(440,440,1),(444,444,1),(452,452,1),(455,455,1),(458,458,1),
   (461,475,2),(478,494,2),(497,497,1),(500,502,2),(503,504,1),(506,562,2),(570,571,1),(573,574,1),(577,579,2),
   (580,582,1),(584,590,2),(880,882,2),(886,886,1),(895,895,1),(902,904,2),(905,906,1),(908,910,2),(911,913,2),
   (914,929,1),(931,939,1),(975,975,1),(978,980,1),(984,1006,2),(1012,1012,1),(1015,1017,2),(1018,1018,1),(1021,1071,1),
   (1120,1152,2),(1162,1216,2),(1217,1229,2),(1232,1326,2),(1329,1366,1),(4256,4293,1),(4295,4295,1),(4301,4301,1),
   (5024,5109,1),(7305,7305,1),(7312,7354,1),(7357,7359,1),(7680,7828,2),(7838,7934,2),(7944,7951,1),(7960,7965,1),
   (7976,7983,1),(7992,7999,1),(8008,8013,1),(8025,8031,2),(8040,8047,1),(8120,8123,1),(8136,8139,1),(8152,8155,1),
   (8168,8172,1),(8184,8187,1),(8450,8450,1),(8455,8455,1),(8459,8461,1),(8464,8466,1),(8469,8469,1),(8473,8477,1),
   (8484,8490,2),(8491,8493,1),(8496,8499,1),(8510,8511,1),(8517,8517,1),(8579,8579,1),(11264,11311,1),(11360,11362,2),
   (11363,11364,1),(11367,11373,2),(11374,11376,1),(11378,11378,1),(11381,11381,1),(11390,11392,1),(11394,11490,2),
   (11499,11501,2),(11506,11506,1),(42560,42604,2),(42624,42650,2),(42786,42798,2),(42802,42862,2),(42873,42877,2),
   (42878,42886,2),(42891,42893,2),(42896,42898,2),(42902,42922,2),(42923,42926,1),(42928,42932,1),(42934,42948,2),
   (42949,42951,1),(42953,42955,2),(42956,42972,2),(42997,42997,1),(65313,65338,1),(66560,66599,1),(66736,66771,1),
   (66928,66938,1),(66940,66954,1),(66956,66962,1),(66964,66965,1),(68736,68786,1),(68944,68965,1),(71840,71871,1),
   (93760,93791,1),(93856,93880,1),(119808,119833,1),(119860,119885,1),(119912,119937,1),(119964,119966,2),
   (119967,119967,1),(119970,119970,1),(119973,119974,1),(119977,119980,1),(119982,119989,1),(120016,120041,1),
   (120068,120069,1),(120071,120074,1),(120077,120084,1),(120086,120092,1),(120120,120121,1),(120123,120126,1),
   (120128,120132,1),(120134,120134,1),(120138,120144,1),(120172,120197,1),(120224,120249,1),(120276,120301,1),
   (120328,120353,1),(120380,120405,1),(120432,120457,1),(120488,120512,1),(120546,120570,1),(120604,120628,1),
   (120662,120686,1),(120720,120744,1),(120778,120778,1),(125184,125217,1)]

def isUpper (c : Char) : Bool :=
  upperRuns.any fun (first,last,step) => first ≤ c.toNat && c.toNat ≤ last && (c.toNat-first)%step == 0

end InfoObject.Text
