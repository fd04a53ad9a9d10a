import Mathlib.Data.List.Basic

/-!
`Secp256k1BasePointDoublings.plist`: the base point doubled again and again, each coordinate as
eight words of 32 bits, the highest first.
-/
namespace BasePointDoublings

set_option maxRecDepth 20000 in
def plist : List (List Nat × List Nat) :=
  [([2042521214, 4191992748, 1436574357, 3464956679, 43777243, 768485593, 1509065051, 385357720],
  [1211816567, 648266853, 1571093500, 235997352, 4246189128, 2793755673, 2621952143, 4212184248]),
  ([3322183572, 1106083181, 809844846, 2512420056, 1551339083, 2364488871, 2880178617, 1550884581],
  [450980094, 2789065529, 2747630617, 1181543150, 4160107109, 845598945, 593768873, 1355801898]),
  ([3834895345, 3238887667, 1478379780, 2466976772, 3429634960, 249591172, 1962579115, 3905211667],
  [1374525758, 2698270135, 1447223817, 2393183304, 3647450675, 3216899648, 3488185308, 1198758178]),
  ([788653537, 1556755741, 2951971903, 3071228975, 169598213, 3853486218, 1735937779, 3775539713],
  [1548593319, 1095997769, 691865642, 321721268, 3269596118, 3126556183, 3050974391, 1824385284]),
  ([3859795603, 3047071429, 806464188, 566378135, 2997031785, 3095026409, 3293505694, 711846922],
  [4158869619, 2581960082, 2646187828, 4118361872, 311855390, 1154629387, 3790810318, 1767991329]),
  ([3540097495, 1337303597, 1203167316, 3807606990, 3671063736, 2567218717, 1976622036, 118767205],
  [2500038045, 182703555, 3017203401, 3917709413, 527830211, 1693286806, 95682335, 605055673]),
  ([3206791508, 756476599, 185618922, 4164059708, 4232867613, 3451583873, 3816364262, 4168413067],
  [1555269231, 3274703731, 2061052064, 3126039268, 3307404372, 2166239096, 1304657662, 1719868831]),
  ([889142244, 54491654, 1768701193, 4157695772, 3170196695, 5461589, 1685092165, 1734976078],
  [1570574690, 975400021, 1063655896, 2553416076, 1440683715, 3908613761, 2224096890, 1942761242]),
  ([2189567538, 314968537, 3928649278, 388883000, 3636698283, 3584826529, 105308735, 3589608712],
  [301508617, 2237128676, 1585600232, 817236686, 1658196908, 796596158, 3541790383, 4142034095]),
  ([1179873458, 2275909619, 2421851514, 2633570517, 182176104, 3655424464, 2456693760, 4013204045],
  [904212915, 2204680322, 2762968026, 4260283073, 1485703602, 366180880, 2734226208, 3006826484]),
  ([606071736, 3795631479, 3596919183, 1722638912, 2867621581, 3356733576, 3585671602, 3800371999],
  [1362327769, 4287953107, 3603177661, 328736248, 3444636943, 3171726767, 2880693871, 659554925]),
  ([1562106702, 2708667001, 4242852905, 2212034777, 4231105413, 4095991309, 3989529350, 2610037873],
  [675512935, 2033688110, 2035005844, 950150742, 2045451929, 2529521275, 1882392166, 4156043523]),
  ([392041887, 1921746522, 1928961222, 3338437741, 3770234931, 4246872813, 1945953717, 1374009145],
  [3545263629, 2654763499, 2767165349, 536289118, 2897581402, 3710137436, 1861906430, 3925792405]),
  ([1111097663, 67056343, 2785000648, 3778659873, 821952181, 3336180251, 3463971998, 1186744278],
  [3105546255, 3789674864, 2702679931, 3136730055, 1913491139, 1380909214, 3508760173, 2337573428]),
  ([287140421, 2887760133, 143686266, 3168175990, 1239377455, 993929025, 808318711, 2216067658],
  [110530844, 1200533499, 3104655579, 4278606162, 4033872009, 2530921036, 2845905364, 554232272]),
  ([1246391753, 2059913400, 2910412222, 3166297343, 1922086538, 1593265750, 2875121120, 466540405],
  [1385763248, 375594610, 2487155191, 968946775, 501812443, 1111966380, 2998898536, 2811090541]),
  ([910004436, 1202719900, 2580458501, 3055955680, 1396972670, 1431646206, 1382788495, 2214544960],
  [81949613, 4235403809, 2503689299, 2549298737, 1169795216, 135896779, 1644182655, 1005493737]),
  ([1276876902, 3986325147, 1429828550, 3376087743, 191036161, 786412957, 3530631772, 2945631553],
  [3254227667, 549358095, 2143074131, 3461801628, 3327322839, 3829313965, 1925510141, 3331317792]),
  ([2752002167, 3129192747, 1385836348, 125875534, 842263996, 438890805, 3771265676, 3198874577],
  [1089074706, 4277124217, 3099558870, 2472653794, 536995671, 1859252112, 2972406605, 4038218937]),
  ([2818885185, 3532439733, 978206234, 794216559, 1846380554, 1161954233, 2362694490, 2034291514],
  [2512290597, 724543184, 1038886978, 3244312552, 452037800, 2633447081, 1137612282, 1833342586]),
  ([2336972566, 1576256190, 2355250357, 3074777992, 1139058561, 2707148059, 1777834581, 3757963276],
  [1252854383, 1758660788, 3019626369, 984668676, 4192417364, 1633873494, 3018846406, 1607793974]),
  ([3977010404, 3778187633, 2363587710, 3359400208, 1907320046, 1098684794, 3141478001, 1196811454],
  [572170183, 3156428221, 3208490367, 1518249600, 1238972709, 1983765169, 1677326958, 2692477999]),
  ([4209815571, 3293374100, 3014745151, 2213673704, 3845280854, 1845842638, 3568756424, 130992299],
  [3423188457, 245287767, 4230873798, 3962548541, 2620568198, 3093179950, 2306990041, 2870300784]),
  ([163285523, 768266994, 3362986507, 936102653, 3014843778, 1327746366, 133582510, 2597433847],
  [2489037490, 2951668665, 3069828392, 1334197893, 257206336, 4101320019, 1678968359, 3280018560]),
  ([1916582566, 3856374125, 1811378624, 198527175, 3070286847, 2797660027, 3412137362, 1379073242],
  [2531813301, 1499251864, 2837517172, 2290240878, 643866725, 930695496, 31196829, 2662571871]),
  ([1475323782, 1132164173, 876445124, 1467196358, 757336643, 127420679, 533955542, 211824853],
  [3608337163, 3518268696, 2302027721, 685638636, 1755016490, 3857291082, 2960831554, 1957703582]),
  ([642497859, 1781054530, 2732555932, 3575803065, 276846462, 846922026, 2142226295, 207113685],
  [3632033705, 1323340724, 3572980962, 1278459426, 1779532355, 1903922573, 3859949459, 1996794641]),
  ([2840356132, 3175142075, 3670563845, 1647749021, 2810955295, 3585993885, 737307608, 1260665064],
  [3038781401, 2465817216, 4252574101, 83992122, 2120039520, 2699270955, 3269642459, 4052115956]),
  ([4005536980, 2478751640, 3126849224, 314758069, 155686418, 933828995, 2589146826, 243128314],
  [1570409635, 2534338802, 1777237722, 4051175581, 2598686147, 2802972434, 3724365786, 3789457817]),
  ([941378263, 2812902397, 2786877489, 3239594335, 3303689152, 2405918422, 1992222984, 1204983805],
  [2473260347, 596569828, 2403229607, 160521932, 4031057970, 3683884032, 2477581080, 2101952453]),
  ([3790584269, 95274555, 3437299761, 3646131271, 2633093215, 4024240306, 1150120002, 786318668],
  [248202544, 3635387367, 2954185759, 4266094883, 1179529796, 2812466374, 2912932403, 2828089239]),
  ([1394145713, 2724818960, 3316392798, 2599712168, 3353690527, 869563160, 3544182451, 703306148],
  [4098674667, 1273865241, 1467144506, 3954443752, 2753506112, 3521375333, 745697006, 4270979373]),
  ([269436122, 1768845671, 663867552, 2608586309, 2668762530, 2604401599, 4023878491, 967085488],
  [3453608241, 2459962231, 784921392, 201918054, 3086961176, 4283536812, 264068310, 734419465]),
  ([2349435378, 3468019569, 2822856191, 726417817, 3638151417, 595396616, 1258629199, 508425990],
  [4216175876, 1329799220, 4291958572, 3118241388, 1625189365, 358945194, 1936377251, 1567816344]),
  ([4220458300, 1579575044, 3299115380, 845332517, 2622653753, 3163929627, 2984655923, 3695689725],
  [1822587549, 3319816728, 385487321, 3032272211, 501093257, 2891195923, 151668189, 3645485205]),
  ([3880203071, 3613217141, 1510787568, 2804445316, 1704995928, 2000136120, 3103398795, 1269981850],
  [4071620097, 1158089745, 1287927299, 2152473985, 3364058794, 1847236250, 2676856346, 1766258390]),
  ([3775077346, 1657269531, 499720826, 1241825303, 2810154308, 1693692805, 747294182, 3845455149],
  [2641387922, 2302689374, 1807131671, 1704416090, 4069711169, 2652695929, 2756647154, 2488705037]),
  ([4105781026, 1283492330, 3120127437, 254390985, 42625733, 3734296663, 2229435958, 2841412438],
  [2793050860, 103375583, 2967860903, 2752442000, 3279876404, 1226137754, 3176686009, 3187679187]),
  ([164736161, 4242887222, 2979406570, 39520432, 3575547154, 4185811308, 550907873, 2065043082],
  [290658447, 1359081670, 1045850412, 3772301950, 1877598446, 2450699749, 887115973, 2090880068]),
  ([3328989644, 1162619806, 413314425, 941739495, 1368078995, 3217266018, 3917315332, 1975156674],
  [3646500834, 3216183247, 3198481358, 2864778418, 4027211997, 2975421847, 2126759580, 4150221142]),
  ([4276776110, 1188387667, 180519839, 339466220, 1559802470, 2753391349, 761161869, 2425645421],
  [3850136428, 2547835322, 2960018962, 3208564060, 2552006999, 3426829357, 827711167, 403243144]),
  ([1291848546, 450594785, 3308413359, 2645746041, 337562336, 3006374279, 178521098, 4000656136],
  [1779260303, 417387093, 3412951637, 2195288780, 3414029809, 432482618, 1047692575, 1211116778]),
  ([1911910602, 540909661, 3601475105, 342978856, 3596066880, 1042226039, 4170801917, 1197234415],
  [3946987867, 2514257933, 3528808244, 1539922829, 4064566528, 3275112061, 4167342706, 3546104334]),
  ([2729948002, 2675692115, 3084026549, 3256721428, 1186234909, 3328079441, 1615376480, 1140818777],
  [1764767892, 378868269, 1470707619, 4145949129, 282134581, 74397749, 2721677292, 4270259906]),
  ([3664226589, 2432998620, 3009920587, 3875523132, 4276970877, 2156233694, 872060811, 3253497009],
  [2611784245, 1209418428, 1106535415, 3969351909, 3737628101, 150421665, 2124327138, 2053684765]),
  ([1304087862, 1604448088, 2081164538, 2936068209, 2344460085, 3437910659, 1591987330, 535249353],
  [381899790, 2320599342, 2145189209, 3895994781, 214140064, 2680181599, 1623068920, 864990755]),
  ([332529604, 2169543662, 3868137432, 4282499673, 256673265, 1382572112, 2280499386, 3034716378],
  [1611151647, 2844890653, 3469447991, 2981583037, 2762801440, 1834733863, 3772465565, 3675855897]),
  ([563826588, 4016857088, 1985595292, 1169183547, 1019861270, 3458849791, 322650314, 2733206968],
  [618251781, 3646549994, 4121182592, 3224840814, 961514181, 1049646949, 668926375, 2369481671]),
  ([1401966506, 187911389, 2799698067, 1592926545, 3960000759, 3138455199, 1465146572, 439859136],
  [1539344336, 3162509421, 2294934730, 3255647260, 328833409, 3779343465, 2647329131, 36139464]),
  ([27620783, 2638300789, 1022988569, 1662425437, 711911338, 2903475629, 1473056543, 950303913],
  [809038283, 2326924739, 3428187218, 3787163288, 3183033437, 2672656038, 1741020974, 2011942327]),
  ([4126203971, 1981928505, 3396466113, 3076609494, 3550878339, 3552709742, 3809072981, 3809826395],
  [1805602402, 3193570603, 4129392918, 234295322, 2780783039, 1054336010, 1736716463, 3710831746]),
  ([2404413195, 1812688538, 1470624621, 2534188259, 1204537633, 1176663618, 3420946905, 4113968435],
  [1184863581, 721052017, 2503001410, 1327248232, 1221562973, 1136365231, 810056972, 2281317439]),
  ([2390478091, 3545858983, 1906100855, 1690996839, 2041920004, 983272394, 4026096116, 987258951],
  [280459019, 708682931, 2483228738, 212422981, 2045283886, 1207789747, 3926918270, 2220898090]),
  ([867392426, 425620125, 3276862233, 2573816031, 1002527629, 1023642087, 2010284171, 4047438673],
  [2777284997, 1678425991, 4182130742, 613241532, 2858770671, 3163069296, 734331852, 3415045144]),
  ([927854254, 583614357, 1555577554, 119504418, 1459020041, 3403136166, 3609053106, 1142209334],
  [387016118, 1338855321, 369306630, 4161206057, 942200419, 15024929, 2020982441, 2377085770]),
  ([595640476, 2134567653, 2085019763, 2511253724, 2488122098, 3056246540, 1586128045, 1793578518],
  [1871611417, 879007082, 4049177327, 3574182042, 2477756948, 2407819094, 10075720, 370916378]),
  ([945745204, 3251502881, 3872424326, 2310544350, 1906832625, 2207770217, 176430613, 2579773538],
  [675015619, 3907658741, 1728175641, 3924554839, 1798328044, 545709196, 3225784293, 1412322387]),
  ([4143325704, 1034900608, 72793619, 1298098129, 1204299330, 3204193506, 3699614320, 2029159036],
  [466439809, 2112305679, 2938918677, 3009924839, 3864513140, 1211243510, 3512410293, 548053250]),
  ([4213630232, 2408922594, 3178285884, 1025491541, 3448882126, 2106355510, 2643014153, 1901780150],
  [4091619457, 269656909, 1491617447, 433067881, 382913329, 3099044692, 1239140923, 1488611571]),
  ([2307990105, 297341741, 687195836, 1983703735, 3515627270, 244044247, 3980712821, 1618512926],
  [3666562456, 2093591707, 666400309, 1504786170, 915840132, 4260339217, 1666990626, 2391740145]),
  ([117037496, 65859985, 1669100452, 1094580760, 266205258, 1497889737, 3322342790, 3287991207],
  [2088814222, 1613781434, 1773724323, 239453396, 2124733743, 1546129410, 3630731360, 981737824]),
  ([2928078570, 623591708, 484193986, 2219321657, 3658958309, 2816793111, 1553801844, 1266669357],
  [434738121, 1886585593, 1655376590, 1486876905, 2375160149, 343078696, 590662522, 1324234940]),
  ([575195641, 197132117, 3860672396, 1457269832, 2266545781, 3476484846, 2048160806, 2081854096],
  [4194669673, 757198551, 2768681813, 3023419928, 3781391618, 903490530, 916294162, 2285806167]),
  ([3776605718, 3764143111, 1254169416, 3644884432, 2845771895, 3709628278, 4245531723, 3037291747],
  [2278950491, 2275595312, 3786235429, 2532355876, 397264609, 942771311, 1988083595, 109232072]),
  ([857920513, 607931941, 2191660156, 273510091, 4151628131, 3675217491, 330817767, 1120986813],
  [1457981335, 3915796213, 3215989180, 1306196407, 671479358, 2726771446, 619946729, 1814606496]),
  ([2368086018, 1355726254, 302969627, 80219349, 223141320, 3940273961, 4234767666, 3232621666],
  [3958193076, 1901851703, 3542052653, 3287168698, 491453262, 1919388474, 3638601913, 254166796]),
  ([305709174, 1856945833, 3460327585, 4120170555, 2396295949, 120429707, 2439275582, 353822259],
  [2325590061, 3139900249, 3603528162, 3519274007, 155591981, 3430154792, 97367848, 3346757637]),
  ([656235271, 1892391957, 3887262325, 2322207161, 3453802280, 722387478, 430970194, 2022603366],
  [1564124248, 887616657, 3830960281, 1236043647, 3802162659, 1351254606, 2056090200, 3762067239]),
  ([2238131325, 769701850, 735147789, 2305185896, 1947942810, 4150539159, 1914533074, 2167712643],
  [2085100443, 1531163371, 1668547739, 4200776421, 3883866108, 3307835204, 3370322255, 2030244774]),
  ([1397542763, 1947180736, 918652434, 365471263, 998894150, 3744361878, 2576060604, 521665573],
  [3580976304, 2626366939, 1177215965, 852837205, 182702711, 3218942173, 3608969070, 3488116342]),
  ([2837258076, 4001871859, 136188960, 418949869, 2030177607, 3975923922, 3340175651, 3904825526],
  [1955213902, 3806301921, 1517390280, 3722105778, 4160771743, 1653387813, 4003498, 1090929857]),
  ([3244067875, 3641478709, 3248624861, 3805558844, 120958533, 3203800848, 2853837861, 1501876084],
  [732517592, 676471349, 3369889605, 3797931962, 1203730221, 1353717154, 3299118296, 969715712]),
  ([155762560, 2602141860, 1795607025, 2442400689, 261236422, 258377778, 4292434351, 1623730698],
  [1403347589, 1842046534, 3698029765, 3519234444, 1833828104, 3380400830, 3570106248, 3637044617]),
  ([647310463, 925784374, 224191686, 1653731510, 4011245875, 511860305, 963555397, 2123038730],
  [4111723084, 1476437640, 1656523069, 761824290, 3737008527, 1698522929, 2352824351, 99577946]),
  ([3324926182, 4230202813, 3203579531, 320860739, 4112587109, 1926672617, 4043462793, 1980977046],
  [1134002813, 1169269095, 2352834407, 1393827781, 3170600245, 1668488254, 2183626452, 3511482750]),
  ([276062290, 250371188, 377696922, 1902518960, 3088843552, 134733463, 914815104, 186158267],
  [2883966144, 2585876876, 892496795, 2633320977, 606997876, 2379103654, 30914102, 522658084]),
  ([1650511487, 1175978435, 1325825248, 4029182888, 4054901837, 4234769706, 3438073881, 4086290664],
  [3157108779, 1873130865, 2817560649, 2003443447, 3973222947, 2152841624, 3249032853, 2998185495]),
  ([2245581383, 1219304051, 3737665691, 3897498131, 384195665, 2527777406, 124154991, 1028095021],
  [1486130003, 1717331600, 1483428709, 837797820, 2494603296, 868537766, 544833903, 3352419696]),
  ([2385146214, 3891022742, 2349372137, 3426673646, 1293843984, 266094576, 1213215021, 1812693209],
  [3940223913, 2922167897, 753783451, 1902812488, 1385674376, 3607508122, 1237720874, 3602030416]),
  ([1989920600, 1119876494, 3699599084, 3616508240, 3997872872, 324655375, 2569140797, 742744510],
  [1274550070, 803701690, 3369919694, 4148124999, 1101100918, 2071491501, 3583118335, 2967038047]),
  ([3842211296, 2948716756, 1032013889, 1270825219, 71223541, 1975508035, 693357709, 540539437],
  [1165054795, 2861880245, 4193881353, 4221111261, 3177143043, 3964149520, 3773160580, 494230490]),
  ([2782924196, 1744655508, 4094389495, 3537247038, 3282772348, 2032807387, 2355349703, 2654811375],
  [160425461, 3848308053, 1108813566, 2579448786, 1533074686, 2030633132, 3092628942, 796580684]),
  ([2845054453, 4013566784, 890893499, 479984580, 1833631022, 1148671786, 3866325344, 3619230290],
  [2194728524, 2927753291, 3118657807, 620164790, 2308576941, 1494175197, 1940092844, 1273872996]),
  ([3043970719, 2656031228, 2106514912, 2566469112, 1282739568, 1594626859, 3636749750, 1783893783],
  [854123828, 701278294, 3554415021, 4032310557, 567552355, 3419187284, 1185086638, 33558573]),
  ([3764613808, 4104259501, 4125790302, 2400678324, 3890797521, 3332818359, 629565962, 3841779493],
  [2056292724, 3168898302, 312638386, 2908375180, 3611839095, 2265991280, 2993698041, 1324233181]),
  ([246158156, 2718198671, 2626534704, 1336753980, 73318363, 1321659708, 4262047460, 1054015294],
  [1231228350, 2033556290, 1170149435, 4071692185, 2887382678, 3086095222, 3782346272, 2099317128]),
  ([3598222736, 1931471385, 2207388061, 2061218847, 4120152696, 80239383, 1197934308, 3753878748],
  [686467272, 2639291332, 2484008390, 3525055402, 1644622276, 3720978556, 3397111147, 3174781958]),
  ([1764818123, 3651158167, 1254039823, 313990475, 3350308384, 1436135450, 1920334656, 3834640819],
  [2130882196, 3108438506, 3660643547, 2271178104, 152017683, 3836527898, 3487411039, 2397661774]),
  ([557611633, 1557517395, 1490074617, 3691831330, 78711773, 3802396037, 1085106440, 3495270228],
  [1265478923, 1524916816, 1880337670, 609984912, 3142078709, 4083842797, 3757228661, 884234482]),
  ([475944065, 850696831, 1722720237, 2200127502, 219855220, 1647213808, 2308147550, 248020908],
  [1341978127, 2206156431, 733567482, 491530963, 2749279467, 654193228, 1432189757, 1606604015]),
  ([1176988934, 46491277, 3740723522, 280741838, 529538073, 4275423600, 3792685985, 3562216892],
  [235896612, 3561780664, 1244209799, 1460530585, 1233890811, 4292983961, 2944872457, 2525411554]),
  ([4025116908, 2812723791, 1315302177, 473010531, 1750130860, 3698907289, 1628761875, 1378811933],
  [2864203654, 2639805460, 3658810119, 2742131223, 3826488735, 3011807089, 3240640927, 1941718037]),
  ([1316759338, 2062857038, 2377880402, 2772540039, 3800271984, 2915445981, 4039916091, 150721852],
  [393518198, 1822231320, 3782201503, 1844406299, 1393268244, 3220692275, 3769865240, 400337638]),
  ([2307921840, 647399567, 646588063, 1312316828, 2601644634, 468682640, 3800178286, 2087590733],
  [1135488218, 3048420592, 3141892483, 909478906, 3840220096, 4180849170, 10152922, 3625233195]),
  ([1744192759, 1854955476, 2834592398, 1663205134, 674362815, 2444592040, 2938516897, 2120184111],
  [3090405007, 1715756292, 4032487095, 3045511032, 1577981064, 4157825432, 3599420254, 1886478565]),
  ([847218540, 2472879445, 4202733652, 2525710098, 2467154224, 317614989, 3238159341, 998877026],
  [3000239338, 3008512038, 2962843941, 1578735545, 1968394352, 4273831422, 2627721561, 3105895169]),
  ([4272377405, 3195505435, 284309677, 1634232997, 3345890738, 3192063350, 843218472, 1090201526],
  [1845848283, 2601194281, 2096526558, 3434524563, 309025131, 2537519991, 1880964535, 4064065903]),
  ([3985916360, 809664767, 403571672, 1357434126, 3143044837, 3728158792, 2413395094, 530011876],
  [1035902622, 4270586393, 2946594322, 2333315358, 166868852, 4266518923, 4279110137, 1060814766]),
  ([702114190, 3866786879, 3388920822, 615810897, 1527823832, 1336626480, 364564531, 3575443737],
  [2144349265, 2110270277, 662311508, 82954607, 3097269262, 2477245078, 1015575557, 1963287353]),
  ([309024720, 1343460205, 1866446781, 861407793, 4249173578, 2248543487, 1182549075, 2135041169],
  [3249003539, 102130370, 3821315051, 2730442672, 3779640003, 200512327, 2946703129, 2644766596]),
  ([1994801427, 4135046926, 279074573, 1503226067, 356835705, 3076539177, 1388325444, 398319161],
  [3373129613, 3998127567, 1466984151, 109179091, 1579824082, 3043827762, 3031528749, 419539969]),
  ([1888113422, 2656225083, 4001876440, 2170669072, 6117218, 740929129, 486119848, 974227365],
  [2609399825, 3791235223, 4204156636, 3144497192, 1053665084, 1832205962, 1487204763, 1195227584]),
  ([432997199, 3297459170, 431842435, 2514772687, 2671201133, 2259858846, 773527238, 3454334398],
  [685976326, 2707076198, 3283402344, 2870483271, 4019311049, 1057954828, 177296171, 1865554674]),
  ([2943108256, 2026594061, 2087820335, 2207774070, 4002659587, 1273635353, 3819684361, 3514627048],
  [126093679, 3898428208, 2946396949, 1018316511, 3962972906, 2090914869, 3098398816, 391232234]),
  ([3342386539, 62041057, 3894942634, 1950322586, 2407319107, 3743861742, 984698916, 734771345],
  [2302653816, 2501562963, 2138148654, 2898246587, 2184269551, 2021707753, 401028569, 1771734211]),
  ([1433961566, 3447456628, 900934249, 2464656020, 1685166058, 1236847076, 3718951032, 1180871451],
  [3860662167, 2339234499, 3467038885, 489308243, 4132677492, 1784505566, 829233395, 91174161]),
  ([1207121976, 2292409548, 1254073276, 487386317, 586228564, 4242774368, 2499307960, 2492165161],
  [1221237389, 251865399, 420366439, 1531014257, 414927253, 2298057896, 517923090, 240353017]),
  ([3233816372, 2923542735, 3831936201, 3332756982, 351629526, 4240373608, 2820304015, 100616923],
  [193263038, 3828711260, 2090039819, 1081456846, 3451667409, 1892768645, 4233035635, 2889158757]),
  ([3633668709, 1219910529, 3798255459, 2090281079, 3520540255, 982667284, 925802341, 2297872715],
  [4273973816, 4072439470, 1921959432, 415449323, 54693219, 732981217, 2033598167, 1568512287]),
  ([4245909231, 2305885262, 2319074146, 537109095, 65843066, 247729215, 3126548811, 1996981284],
  [562931764, 4089860812, 1738658193, 3049648037, 2096280055, 2318065576, 3445747439, 3329351153]),
  ([3651047069, 3647180052, 245156435, 1733402502, 460325792, 3560899146, 1595770092, 2377239356],
  [920394157, 482386855, 2839919410, 466532974, 1653014264, 4291327580, 3632933347, 1803958183]),
  ([66974049, 2585363223, 2713553492, 3853554065, 3523425566, 71362102, 4249286285, 1010323826],
  [1082983104, 1851527875, 4266069117, 1015378805, 1536922270, 2431066923, 2041341936, 4241201044]),
  ([3101332483, 714437912, 3943654451, 1461618529, 3472869174, 2481475293, 1226115670, 1332178435],
  [671408036, 1208328676, 3620314313, 1982335152, 2462865485, 2516532049, 344515815, 1325266663]),
  ([1832308997, 3985425870, 1408420713, 2327191801, 1184513628, 2992371430, 3558077460, 3316609642],
  [3837418548, 3816253086, 1926809196, 2512715817, 3703937334, 3020982837, 3312470298, 335150205]),
  ([985054689, 215198732, 3496510458, 1727049955, 3943893440, 1397457186, 2262999820, 2772491161],
  [3133825543, 2615701975, 4231075753, 1779689884, 953235376, 3815358531, 3867623395, 467302563]),
  ([2036741347, 4054669040, 4256827037, 2634530018, 3123696883, 1943917498, 2004336423, 2668644570],
  [1301209782, 3484552073, 1457419379, 1517889522, 1394964184, 3486992482, 3908681252, 2701577985]),
  ([3893357076, 1142928186, 2106251961, 1197309867, 538570747, 1364633490, 4053866360, 3821068125],
  [4006731391, 1670250615, 512325260, 2747962439, 756375168, 2939301545, 4239665435, 1791618168]),
  ([1141678576, 2393117285, 2551891181, 519993911, 304991288, 2010315030, 766568331, 260296024],
  [2798170322, 3445547298, 2945012956, 2639146754, 2719894850, 1774232160, 2960900201, 3096067915]),
  ([4136946607, 731278364, 3321362473, 3551070081, 2613513916, 3249678809, 3894139431, 312052496],
  [1084636858, 1639903293, 1664901114, 3427194922, 3949749443, 406596167, 4135095063, 15752785]),
  ([2339276330, 894855240, 1354159348, 966941008, 1202452117, 3230360596, 4183429941, 2379568125],
  [3932031121, 248585396, 219200557, 4109082529, 615267418, 406029264, 3624131283, 1050404333]),
  ([2734778747, 3754782787, 330975461, 492205379, 4070670851, 519923989, 3720379324, 3303104624],
  [1936783644, 4217890037, 135793146, 634654619, 389405687, 3231783443, 202185220, 504856225]),
  ([669115804, 4286181449, 4092121665, 2651586420, 3023660288, 1278522840, 289538838, 4065043886],
  [822814374, 3355763209, 3994771004, 4235845381, 3746079142, 2600100855, 2225455086, 2285520307]),
  ([3339904933, 4135996142, 374902467, 2301460047, 1513729502, 2231106383, 2573801308, 2628704174],
  [1231307015, 1365468083, 1710050178, 824039909, 940412500, 1259136567, 2228308138, 1175806612]),
  ([201065732, 2763203421, 106696002, 1803974140, 2999475567, 1478974841, 457433598, 1151785731],
  [425019002, 1815409477, 1069083775, 2493958546, 927101335, 878530309, 1487703322, 1179354434]),
  ([2427291059, 2312550710, 1178574085, 308776418, 147600139, 288391167, 2876950078, 1068519124],
  [240155190, 547586657, 2952645593, 1114776248, 967768766, 360876365, 2568834376, 3413045584]),
  ([2116867086, 4173938807, 4098563349, 1212309053, 2115132390, 1181776813, 672706797, 2816213329],
  [2421912840, 719125171, 2191923851, 840890717, 2291920448, 2934835244, 2587608377, 544349895]),
  ([2705782049, 2512313038, 566851003, 3522122407, 2623761401, 3682942201, 235944676, 323347863],
  [2779355914, 2958294704, 2598985170, 3685948224, 3932661170, 569414832, 1987405674, 4099569418]),
  ([3528226209, 3474559929, 3170630106, 2992275732, 3688776222, 4274832610, 213603324, 1290032196],
  [1493048621, 3897410001, 3486219544, 283486090, 3212153844, 2582766884, 3415417961, 2279426647]),
  ([2406005202, 4131086131, 2453258669, 2552174126, 3901511288, 1916707637, 461063244, 2663694554],
  [1714069293, 3120970118, 3726479554, 3065913693, 3152686334, 2505116669, 4064067449, 1344274306]),
  ([1296674557, 2018410840, 4239387623, 2144972633, 3633862829, 3881991854, 3867442680, 1290956918],
  [3442670681, 2702037301, 3877892624, 899458800, 1846488346, 2113198150, 1804645986, 61503518]),
  ([1969509278, 2245357445, 936796574, 526146215, 2368355808, 2291998030, 3906718551, 699801638],
  [3252061505, 927577030, 1379000146, 1248995621, 1749724377, 1421319987, 1098041594, 3670936819]),
  ([554340730, 3655280505, 1732706096, 450481352, 2029394527, 536086571, 1399118541, 1471455864],
  [1728977748, 1354098043, 2050604673, 4174803837, 931784218, 2951875580, 2133267453, 209396273]),
  ([3841194753, 1991214550, 1610194937, 428619273, 524871781, 57155134, 1720122704, 1394810385],
  [509829946, 3505344284, 375498448, 3926046504, 1825040206, 3377582537, 2183936087, 1877701564]),
  ([1261489079, 1751610336, 516309264, 2883270191, 2287147650, 1537307285, 1006559779, 1003335471],
  [1959146754, 1706779291, 1872637015, 2009318569, 534723713, 3828647285, 1745042758, 1025947063]),
  ([3417584810, 2061594637, 3440751115, 390481943, 3960566096, 1356921369, 805215273, 2792555935],
  [1243226122, 3034234135, 1445808419, 951443373, 1104436815, 181794885, 3084555842, 578553612]),
  ([4101506413, 2618305564, 3496835870, 1968645196, 1838996165, 2269516009, 1296533217, 115217088],
  [2131355152, 4080941382, 3867186656, 275278156, 650215158, 162239191, 1772580070, 3394462206]),
  ([2348874395, 418116401, 3952481591, 2757378662, 3338882863, 223223047, 385576622, 552264350],
  [4020531815, 4272234913, 2849780794, 926337396, 3271219962, 2179165268, 3889341638, 1728201035]),
  ([617594903, 1839379567, 2830851065, 1668014575, 4252903807, 689057715, 3897334448, 3247102559],
  [3959394235, 127689126, 2556981581, 1575856423, 3986005153, 2767721714, 1761239353, 2542426219]),
  ([4881752, 3568942210, 3928878450, 2703830726, 383637119, 3354417133, 4043511957, 2489818530],
  [3112879543, 1728236405, 3870414868, 2126977851, 1908651156, 2520752778, 1215820932, 2006973990]),
  ([4001196484, 3419406791, 4235642338, 3227962953, 2532868234, 503820969, 3438497453, 3363588965],
  [3972555374, 3248755586, 437856959, 51326690, 3275655577, 3135849189, 602469454, 3510020442]),
  ([3886181606, 2647949983, 1041288896, 2850655955, 339544143, 814453440, 2575293948, 1623932481],
  [712347184, 262641739, 1192951914, 447724312, 3500585664, 1108247522, 243962913, 3475832145]),
  ([4123720378, 57407696, 221822902, 1998621173, 540816868, 3605213097, 3648936849, 2068506721],
  [434649994, 36334977, 2080348420, 1678260501, 2604346012, 1429145075, 3432784796, 226632604]),
  ([3912798244, 3468050207, 316625238, 3622307138, 2409517212, 1229756448, 2231192791, 3173684817],
  [2252892295, 594699669, 4180179642, 4134644465, 2372997326, 3329690622, 4278051511, 1584949284]),
  ([642079192, 2015962475, 3977341184, 3626830903, 2668514578, 1405521519, 3475849646, 2094902155],
  [2045099289, 651383084, 4017866295, 54555351, 2055614895, 969601510, 3388361541, 1959027]),
  ([3058015758, 3815124680, 3526705346, 599571909, 1909181334, 2105098831, 1022533299, 3731587311],
  [108824429, 116645997, 3789217558, 3848674739, 3300109933, 1222859567, 4077646006, 443660869]),
  ([3856197872, 3649191048, 3839061875, 32773523, 3062433142, 3195650577, 624882549, 54441247],
  [1304553911, 2250128900, 2880531031, 3640585968, 3842628678, 3656447305, 2044050838, 1516413657]),
  ([2848598007, 2109508669, 3312127859, 565895389, 2875637327, 2829254935, 933656136, 253058660],
  [4105909078, 2029720788, 3516387876, 1812123652, 2271035778, 466284718, 524235580, 1444622999]),
  ([1761309056, 109500402, 1589252182, 298837849, 524783236, 2136067808, 1833682473, 3605931132],
  [3440562740, 1658689078, 1936938023, 1343949831, 2592954379, 80166045, 2921300525, 436307549]),
  ([3599401160, 671856704, 2033333418, 294585891, 493821894, 2121516453, 3738832731, 1231635432],
  [3683363327, 4105537232, 206249873, 2008081035, 1527675791, 2017798490, 692880422, 1796419872]),
  ([4050272412, 1736065214, 1076858619, 928134972, 2901214524, 1869622146, 2346328620, 2752689917],
  [708915479, 340993945, 3618023258, 1961037390, 374605401, 614382756, 646819447, 3969929946]),
  ([1096070406, 2876665666, 4225990505, 2574710861, 3097448239, 1810733106, 1545210734, 846058724],
  [598542160, 1137023112, 2496062541, 1627545590, 1095674329, 3521261012, 1820693141, 123596060]),
  ([3074188583, 1775015361, 134909261, 190404330, 2481483337, 4235361759, 1280419750, 1065288262],
  [2590497552, 1903479453, 1263753363, 3317088746, 437088996, 3336918245, 1501450596, 3928637563]),
  ([843771261, 4133257282, 1390150256, 2423926960, 2517806777, 1933876458, 1083545615, 3264036189],
  [1686779479, 1958092591, 4046504131, 1525423951, 421608204, 2117281859, 2524062895, 2527820932]),
  ([852046622, 2725202178, 684926593, 2282582531, 4146806346, 2380323615, 2834531201, 2995885897],
  [3620546347, 874552501, 1767517954, 3069434808, 646597309, 2923014921, 1662949296, 4069570019]),
  ([3945344827, 999831429, 1241708199, 267152156, 1774281142, 3783551886, 505160274, 2073531876],
  [2353250906, 2532228736, 378954570, 4047864667, 1460870517, 152116335, 1535024431, 2924716286]),
  ([2790930945, 3745210098, 3860911153, 4848609, 1299268991, 433188149, 2929958231, 2301640669],
  [2039390356, 218061935, 3103014285, 2431462518, 2256936194, 1336857546, 3671345805, 48662275]),
  ([1308213577, 432924191, 1834082267, 3858687452, 4005827643, 2832321160, 2391528307, 4244982934],
  [3533905, 153978664, 84505794, 975013332, 3050637005, 3263711489, 2464918534, 3402698077]),
  ([3979528920, 3536624012, 3528660948, 3837292680, 3923658068, 3850014064, 3234246908, 497327620],
  [312471391, 486736388, 2772552247, 1482281483, 1390059436, 3030363005, 3056672977, 2082322912]),
  ([3894520690, 1298358513, 2152326161, 477116014, 683896267, 1673740310, 3413383380, 3900962901],
  [2918173688, 1677016291, 1741739025, 1410781017, 2335906246, 351020015, 3981315178, 1501900255]),
  ([1057851796, 3843740178, 4099228975, 3163984807, 789882183, 2939684585, 4227815918, 3024188462],
  [4225199139, 4069277124, 1172687630, 2222616075, 505437740, 986791317, 2355443259, 3488394686]),
  ([2620987816, 1246185584, 4209871516, 482762785, 1379174661, 1300169480, 3422329288, 2887751885],
  [3719843599, 1246616919, 1481573451, 4066436673, 2421368567, 1818544358, 3195952643, 3573307805]),
  ([775685426, 1649793039, 172162153, 3586730660, 215164581, 1048917488, 1130298235, 1766459884],
  [2095249, 1701605301, 3185238592, 3090137515, 3762857276, 1887135313, 624199297, 2294755966]),
  ([3907166796, 3483637127, 2920676222, 1042603428, 863044374, 2710604084, 543103394, 2879159526],
  [1187611598, 208624923, 1286548267, 1005461593, 1846142467, 3049421427, 2998935222, 2285250172]),
  ([2807339692, 1569027010, 3002114955, 385888930, 313307026, 943545183, 1527593318, 2328343490],
  [3172454841, 219948053, 861543792, 3247734059, 1567314197, 1399920351, 4195127665, 2458381039]),
  ([1616320267, 500248543, 2380291880, 495847099, 2447460666, 2341590220, 1512126497, 547969509],
  [2585456818, 1785350151, 2916721370, 4145934946, 1179734716, 1055018085, 3902389907, 595960488]),
  ([1735654759, 2085806180, 60035338, 1188857311, 2081636237, 3567423078, 412731997, 2197640284],
  [1146009304, 3449251119, 252650953, 3710592107, 3939991797, 2714161048, 3905417268, 2491330990]),
  ([3774377364, 3514623333, 595360170, 3456927682, 57992248, 273055824, 926703979, 193392673],
  [207035507, 1930083572, 2056382514, 4056455724, 2592128192, 291488859, 996899276, 3049206362]),
  ([1120540075, 2669957185, 3466141209, 1030319951, 1277656569, 147510787, 2328917804, 47869443],
  [1758654246, 3357300681, 1685906641, 4239917294, 3597567398, 2164702887, 2204666362, 2352248723]),
  ([2776031118, 597722129, 1108621732, 1368236824, 2161045755, 2815745810, 2980484926, 3971564134],
  [1084669728, 3882238130, 3375077295, 3851212844, 1127092391, 4111784435, 4002144538, 3786575560]),
  ([2656947298, 4013644347, 1415913606, 2078743470, 1866178659, 3383557005, 3469046363, 3664791702],
  [1877856557, 3683802942, 2784836129, 1422352674, 2036358424, 1613821202, 1223849629, 3397568565]),
  ([2816346167, 1535591853, 4174834169, 1995455264, 3811976608, 1559189555, 2503923079, 1153400480],
  [2789054128, 1470997989, 553951411, 881364634, 1683638208, 4273756834, 3763078483, 2612833194]),
  ([3261490574, 1754300617, 3241948588, 30405835, 3867174397, 3913933987, 2851666448, 1255741179],
  [3890764088, 1424480939, 259621232, 2990942123, 1804594399, 3949007752, 1454306603, 2693298196]),
  ([2004395916, 685687779, 168165014, 702450744, 3140538869, 3482991136, 2406889609, 3193482609],
  [878865818, 3047535151, 4144598546, 4076820480, 2276688913, 4280593494, 995180481, 4255073196]),
  ([3887692139, 1553991377, 1664043053, 2131747731, 754018906, 3775196839, 2817137701, 276031609],
  [314087564, 420912687, 3745648682, 1937555914, 2629156645, 3987311347, 954667145, 3131612568]),
  ([119271448, 1351049731, 3267958178, 1273010803, 1698839978, 4071549209, 2254271019, 4066545423],
  [1383768413, 1347276618, 3811967164, 470306018, 160406634, 589070523, 3044826301, 1168229172]),
  ([35140666, 3415991656, 866332249, 1275315102, 1528369608, 1343361912, 1868789471, 2744525025],
  [3198688584, 2534035646, 2940151037, 1613742016, 1144166820, 792971756, 1577163254, 1349097653]),
  ([153654622, 3862407236, 1668456403, 242941230, 3589890676, 3853352540, 2963200668, 114885548],
  [3260424448, 1027556008, 666339859, 154834414, 2889688815, 2829637695, 3306688147, 1540163871]),
  ([1334427118, 930206544, 3671155632, 1286703830, 2095442373, 1532555495, 588269478, 257547678],
  [3396948693, 578428777, 1548463948, 71021127, 508068432, 1715003228, 269921842, 22458441]),
  ([3416163076, 3403924904, 205089708, 2730738889, 2494982384, 2040677823, 1385967948, 4293923223],
  [1657262720, 515378794, 309483725, 4278749463, 1102238092, 22940196, 3275022454, 999857181]),
  ([3807594928, 4171000253, 1015870116, 275975621, 2383146708, 1883817356, 368705474, 1351429314],
  [535506728, 260207159, 2173045484, 1979848122, 1110723560, 3768368563, 2117368792, 3772039247]),
  ([2245066483, 3966611721, 965764339, 2699276933, 1447408809, 128791877, 665511761, 1675110225],
  [520316036, 329485323, 3801958766, 1479341414, 1049055721, 1752642325, 2193766306, 1320286562]),
  ([1803095883, 430228724, 4127696591, 3440500484, 1756660448, 158408695, 1446341908, 492817118],
  [3493500955, 804907838, 4069942815, 2628651467, 2822743476, 2078436106, 3070228591, 3275281407]),
  ([1091869484, 763281107, 3244475239, 2898589950, 1025800670, 2241301472, 3138178475, 3819167947],
  [3373095826, 3682349140, 725703835, 2567098152, 3018618885, 4014542628, 1894330008, 865088424]),
  ([3522876666, 1316783261, 4209786366, 678602682, 1716165506, 96640235, 4175289640, 3824407548],
  [2413926164, 2739469822, 1416886030, 2240509976, 3134419249, 4025709350, 3978441788, 1358131277]),
  ([4281011662, 2549010071, 3251222020, 395884637, 4261113224, 2195333168, 2404648066, 1160120446],
  [1228739582, 4112824856, 2331296988, 1422948662, 3350719855, 3104713963, 747970049, 4039284999]),
  ([696441788, 1597402271, 2028117691, 3971070754, 1038834766, 3862475864, 1003727279, 826931439],
  [2786810857, 2942706186, 3120190265, 3350576285, 157137300, 316927364, 1457989296, 382181960]),
  ([438887684, 720421110, 3023498073, 77060952, 1610686277, 2162259544, 2234031969, 595608603],
  [1433901689, 2529533355, 2088252058, 2306273517, 78899035, 1190029230, 2959040618, 2220011301]),
  ([210469865, 1398747232, 488967360, 3175030804, 786259639, 2556265252, 787418681, 1646145703],
  [231501943, 106945223, 3092308977, 2130561108, 2865418807, 3112637261, 3200220139, 2683734238]),
  ([2189409252, 2984804586, 2664608486, 807084331, 1475472916, 2362891560, 2014207532, 4166443585],
  [3322911890, 1014135563, 1908339398, 2099057256, 2146936369, 2257596774, 3590698635, 2931987436]),
  ([3078558375, 3706022807, 1043168397, 1466854198, 1615268498, 414741601, 4016981175, 212959581],
  [1265599921, 1334226116, 1057812403, 1942761061, 1279455481, 440697197, 1805898428, 2388122565]),
  ([1217870740, 806928146, 1202915506, 3413768534, 3629701343, 1232586135, 266722002, 3293930988],
  [1981773160, 1329388571, 1681374010, 21256945, 1360737686, 1476687800, 998740085, 4209838057]),
  ([3912312206, 2394248604, 1835627122, 2322615319, 192371238, 1531258836, 2765412162, 3153949178],
  [4213060406, 1279254240, 3898520598, 2627029824, 3012848865, 3143513587, 1033621715, 390935303]),
  ([3936766450, 525450682, 3888007907, 1290200353, 2052652494, 2135423402, 2134595834, 555803315],
  [3190979053, 1539027002, 3332014328, 2558110298, 27703653, 4047470169, 3564786437, 3126516029]),
  ([987471283, 3199834094, 3261218469, 2259434, 2654174044, 1885289908, 1406910924, 533311656],
  [927870317, 2934394481, 1014451680, 2080989174, 2866399481, 2265081548, 1638824309, 4032544218]),
  ([312365996, 1116642491, 2115016030, 1455815785, 4278058838, 2520677551, 89038348, 2427356921],
  [1096731541, 2330892841, 3000639765, 3071416383, 2996974333, 380887067, 2184117709, 512346205]),
  ([1611941012, 3371603016, 1535503542, 2933983574, 3344311933, 310986513, 2451719125, 3897931994],
  [2343949929, 4135708230, 2659967485, 2436032091, 1413043650, 2118068811, 2907702672, 4081994685]),
  ([3835964739, 3318683293, 2475810669, 3975425765, 1102502128, 3382785856, 505635629, 3660894799],
  [1302303463, 382846773, 654088652, 4220179276, 3901157087, 2832786673, 981430577, 3736769556]),
  ([4251210235, 2228203917, 1055960312, 1455746893, 89376098, 4155395370, 809447075, 1049584315],
  [3880111794, 2978420088, 3070130780, 465781964, 4197102738, 3523274815, 3501035654, 321653009]),
  ([518922364, 2990573244, 1903067552, 1872681915, 4383445, 3706963873, 4196212665, 3590220139],
  [1697430809, 2935367324, 3534853841, 610388319, 2046953006, 184379726, 3141887758, 1948857211]),
  ([3423511358, 2829708052, 3563432748, 879632657, 3787521025, 2086086009, 148115225, 4019503317],
  [4186995259, 1897695791, 2990395907, 3053184611, 4127674150, 1628697923, 3735807383, 2940547046]),
  ([516427759, 906804697, 1410731949, 2872388459, 2461349238, 2828003913, 1192704925, 1124122393],
  [2934958391, 1454715917, 792349016, 2813050718, 21423999, 1653973115, 1729944604, 3238514429]),
  ([1541925429, 435178438, 3421415939, 1157402811, 2391040758, 3956838486, 229539933, 1095760356],
  [854798019, 4130924037, 1199540495, 1700444158, 244958768, 555328265, 1076932728, 1205910971]),
  ([1492162833, 1856917093, 135527558, 2564783964, 3573557348, 2676308369, 3824899167, 1306229688],
  [2114388010, 2952663322, 224591734, 342065254, 1350493190, 756499202, 3186389848, 777727342]),
  ([2969167033, 2996277430, 868008015, 3630222095, 2185071898, 1287758273, 1094456838, 3432681004],
  [1239952369, 2218450541, 1103868089, 117302256, 860933122, 3245461223, 1814062788, 3745320372]),
  ([342521740, 73862191, 2444233460, 1745746571, 3459551345, 2102966920, 2648398120, 912671422],
  [3004752108, 861143690, 3714488359, 4191466119, 178951965, 796810961, 3501365064, 1032056784]),
  ([1464791246, 2321120804, 3848735580, 197989583, 4009531452, 2127242777, 296891989, 2044615852],
  [163158320, 673126855, 1003924896, 1453029445, 438700667, 4010803340, 2925112998, 3344582661]),
  ([3554246265, 2643196408, 1569756055, 3112993629, 279408833, 2935981637, 2156670324, 638150355],
  [2379986019, 1991952734, 1789561127, 1564490451, 3051652881, 3196962030, 3185490000, 2201759314]),
  ([2980734258, 2293438616, 2073513592, 750513674, 2998827215, 2403945490, 4258707, 2525785419],
  [2127955740, 1619070321, 646228622, 761505851, 269098384, 2640460995, 2212095530, 3901860945]),
  ([4199596278, 488826352, 2117783227, 446724882, 2365592096, 2586360183, 1836492921, 830533369],
  [1803863698, 597158825, 3073168007, 578922122, 1583886995, 2776244539, 952995197, 1062152209]),
  ([1670794990, 1636857056, 2013348094, 48826422, 3877841106, 1149470420, 1506131491, 410996808],
  [996997946, 1804193601, 2745170353, 3276536777, 1029180307, 1306422404, 943335501, 2301664760]),
  ([1513939547, 1293268962, 756312541, 4043087733, 2950164778, 3553352241, 4162107934, 3134925413],
  [2335445595, 2464178019, 2268753343, 3208616367, 1055034307, 3626368654, 3635507407, 489848605]),
  ([1558578607, 2566471386, 1762704948, 4041097727, 2245774190, 1772681728, 380056437, 1251951824],
  [1289605019, 3961678846, 2074438608, 835152984, 2872881599, 2737753286, 3234881332, 2312306949]),
  ([3659358672, 3396475409, 2980429675, 2106124354, 438864565, 3585844514, 240374571, 1594261186],
  [2170025306, 2090414188, 2042656353, 1640570409, 1722235033, 3531191434, 1700772367, 450377457]),
  ([2625363979, 1324663876, 3750090230, 499198010, 593515651, 3791186228, 3015839954, 752075625],
  [2451620062, 1957825824, 1386376517, 1558446408, 1043404090, 376872125, 703479787, 2721223957]),
  ([265126900, 673523259, 3042337970, 952943761, 1960642215, 88151950, 1992087853, 2075707875],
  [1812709839, 3938843598, 3520602925, 3858609795, 2914954957, 4049763316, 3899479547, 3746212269]),
  ([1903509631, 458813456, 3570246854, 621929885, 3085815592, 4115099033, 1559468356, 2993382641],
  [1135891779, 1155781968, 4084020225, 323799150, 2954881207, 1950817578, 1114537722, 2990683349]),
  ([2833416959, 211224208, 1914044312, 3908911462, 355540448, 1148132870, 712224865, 218517011],
  [2140616027, 2377653257, 2885386044, 1529157000, 2338822718, 1356688342, 3472344881, 301255692]),
  ([3402035943, 3800018635, 3414650752, 1587965539, 4022247082, 1966958529, 3244210666, 2138461089],
  [4157871845, 3802820377, 1289446873, 2754229328, 2179480293, 1753285536, 1757481680, 4274382166]),
  ([3873431110, 3996635654, 4022098226, 3851305765, 1253533481, 1111018257, 3432991408, 2250506301],
  [2267526071, 3197188425, 2402240759, 3096416800, 991749610, 1384110045, 1967678734, 571914555]),
  ([1011746972, 3651568189, 1722027260, 2060017794, 3796951828, 2633109971, 2967539765, 1222435081],
  [1140571750, 2682360244, 2155183050, 360074551, 2507792706, 3649037975, 3804194194, 974761706]),
  ([390747065, 3382871431, 758769006, 1762904753, 1566159354, 1361381568, 586384094, 2199472508],
  [3435781175, 2885458966, 1471419743, 742914534, 1684748829, 2360968515, 2212107180, 127597171]),
  ([552002279, 2526309302, 818349854, 4055445155, 3577554958, 239403281, 1599972207, 2215498355],
  [3551361790, 1326799332, 1242276269, 2542224981, 2166278521, 1034447164, 3229416725, 3141973395]),
  ([2383194148, 3617804763, 2818736288, 2121390960, 900622355, 1824672931, 3887419184, 436696692],
  [82597383, 1494822209, 3696663844, 3663908695, 3489006617, 3539537961, 193252332, 314043800]),
  ([4156248282, 1372160721, 3321520981, 1044211393, 2950387745, 2736895151, 3916102750, 2820219969],
  [2479635427, 53781798, 823903803, 3722856541, 2983189535, 3150235467, 3160673953, 3562104238]),
  ([2509477528, 423852124, 1027495917, 4110519515, 3761891120, 3834743613, 2286936048, 2490742714],
  [780031272, 2294493661, 2342533226, 1268569732, 2623881060, 3362820997, 3921193976, 1965355773]),
  ([3421377541, 4279085022, 2950900903, 3715357022, 3607241323, 957827015, 120019604, 197719355],
  [4129365839, 1316354306, 3038723688, 2609026255, 228586742, 2166814504, 690153138, 2026405701]),
  ([2916465362, 2410345900, 3713534970, 195187424, 1038335662, 4225178524, 4084713611, 347279837],
  [3921951988, 3661480869, 2538488655, 2203681103, 1389683175, 1721473929, 49906419, 1238811533]),
  ([1408385835, 2820085524, 1068097341, 4282502866, 1244246804, 3160050838, 4126556170, 226232697],
  [3176329211, 3253762487, 3436504032, 2434467806, 1272292597, 3387471941, 4193773836, 1400583842]),
  ([3534109264, 2923437654, 3594887445, 990943887, 3433079869, 1444919853, 3142661132, 2642587985],
  [3895297787, 1682177207, 1448799832, 2996077088, 2802808074, 4102343250, 3558089076, 3707278341]),
  ([3136390055, 1627411038, 599552514, 53945849, 582602091, 918819657, 2087472044, 3396524639],
  [3735855038, 2630569267, 1451801944, 3714691537, 2384672453, 3396572001, 930932264, 2834473167]),
  ([4155439271, 3817095203, 2408788624, 1850275581, 1524355117, 1454860895, 4200254040, 3312204099],
  [1312492356, 3590314617, 2084842429, 3282780111, 4005757316, 2833043459, 1126130303, 2901689073]),
  ([3753199563, 268537910, 3315786399, 232635167, 2062744101, 2747770764, 531403863, 294798425],
  [2597114537, 3121563400, 2340653518, 2647155916, 581896496, 3854578140, 4196425229, 3429236126]),
  ([1683521059, 893853368, 2431547542, 3620723846, 1806482877, 943272315, 876018100, 1444405363],
  [3651128789, 3211330274, 2929122660, 1203935649, 2243496505, 322628275, 1479122526, 2679072137]),
  ([3093747377, 1121948687, 754092884, 3375303698, 2497754786, 714207983, 1153226892, 1132742669],
  [420786355, 1114303344, 2309126359, 3936016300, 618996352, 1260226262, 241539911, 206352296]),
  ([3962288272, 2245951902, 3302609252, 1627568775, 3805620964, 3981435989, 3525954984, 498208108],
  [3438068086, 1642075041, 858744560, 1695105222, 866268747, 3900635800, 2699664461, 1654453408]),
  ([1908713443, 2313328334, 3550311919, 1582586117, 3842003044, 256949967, 950406859, 598777103],
  [320076507, 1937437626, 183754914, 2465730730, 2020551432, 1248001991, 1669013249, 1913510754]),
  ([2223095264, 3840202885, 3013953235, 3846823428, 789227214, 2723211261, 898460806, 3712345176],
  [955153292, 3126068445, 2225232883, 2632757962, 2416605636, 723922517, 1835315637, 2541290878]),
  ([2519311440, 3174578827, 2681486444, 3520369343, 959370757, 697655773, 3846452050, 1827270932],
  [3208878888, 207599319, 1466691538, 550434381, 3106232638, 1549184909, 3392762564, 2722800529]),
  ([3074104391, 4011738760, 3944165594, 2093519839, 343398215, 3783778691, 2211679638, 650800323],
  [1480791499, 692658857, 173528651, 3167225097, 1931649618, 158695258, 4207107446, 2773474211]),
  ([3992852146, 3678410755, 301566240, 128122615, 3495635515, 3061221791, 2624463250, 3549402080],
  [3999859441, 4238727990, 2497138602, 1258672338, 1530745088, 3295552126, 1023506749, 3801351597]),
  ([323373655, 2810249898, 1656133530, 3893884003, 2147286739, 3299986992, 3168153663, 1823434347],
  [1774065040, 73483648, 4018029364, 1405923530, 1223884968, 487146209, 1061771920, 2137967655]),
  ([3946641653, 841241442, 3959801996, 2248020689, 2441264765, 3467371895, 3344452038, 105940142],
  [3358836610, 584701696, 1140745180, 4024214689, 4113253829, 3889943206, 1869070847, 4184577152]),
  ([3186730621, 153983383, 1333420274, 407181746, 2776038649, 2225209817, 4175805628, 3270092240],
  [1083543595, 2875564458, 2819351882, 2260695978, 2787642209, 3848430689, 3451188993, 2237857659]),
  ([1753573998, 3720670249, 3445351015, 3057943476, 2352693654, 1199416874, 3185966103, 992470897],
  [2007186929, 1333371387, 330759497, 3248454474, 857547506, 2477814586, 1629017642, 129751734]),
  ([3159006709, 3071540782, 2599371531, 3424504186, 215600365, 3807544712, 3403299341, 763622246],
  [221938122, 1853381638, 943273901, 4105672906, 2800265723, 4199840534, 3612923494, 1478439873]),
  ([3661839710, 298765504, 2881865570, 1827125940, 780775969, 4152738825, 674096453, 4093438745],
  [3835222995, 564662320, 501988804, 2945836321, 2390228013, 2452075127, 1749971232, 2801126500]),
  ([52334110, 3924346860, 471601513, 2176937725, 3166995338, 1914732038, 1423845212, 1523542314],
  [2910748507, 1180382525, 3654326018, 2429973563, 1885640743, 3317658544, 2630002766, 2976867962]),
  ([2844231175, 2827837717, 1564344536, 1650818931, 3922313014, 1070049557, 2461784063, 2180286646],
  [3514933675, 3582498262, 470171260, 2182446114, 969994265, 1689082989, 1230666683, 52275997]),
  ([2351475067, 4163472320, 3527249012, 2488443694, 1766548963, 177500835, 2504700687, 3845278890],
  [1084425315, 2737852819, 932179443, 528269547, 2061993200, 1159510341, 2658262131, 3421475970]),
  ([2870657415, 708354801, 2529088934, 75435426, 3356692456, 3729390669, 1576738847, 1980881122],
  [334799738, 843913121, 3920256825, 3681174198, 4159673299, 1042175071, 27623923, 3291074907]),
  ([627375771, 1542387757, 922985991, 624898543, 2392961893, 1999500340, 577433188, 642888698],
  [2329540518, 108542096, 2516194478, 302223967, 351501739, 1803125102, 3682789027, 31789613]),
  ([4282212662, 4289485580, 3217475008, 3272458266, 2124666220, 549269763, 2977489875, 2920808552],
  [322058686, 2229534734, 1087387436, 3717639617, 1417049842, 1073870310, 1889975150, 411852919]),
  ([149591654, 328542120, 3252524238, 1325866962, 1015756044, 1514910519, 1220852241, 531417824],
  [1645148859, 3371050882, 3796794380, 4220896727, 901219262, 2633038057, 1437545635, 241350981]),
  ([3261031281, 1981943001, 4087770611, 357932418, 1674521123, 2762693305, 2727547677, 2710615602],
  [1393905645, 3914147955, 2559592848, 940169112, 178193663, 2650962461, 1860957142, 4237660367]),
  ([715034110, 1020160939, 1048762410, 1451775052, 209409500, 832015181, 3805066167, 3563509089],
  [31452581, 3245237535, 3133650349, 1619760847, 1577183980, 396370306, 4184657746, 1390895987]),
  ([2989985956, 736509467, 622515913, 1340010610, 1911294637, 2736633539, 3904713220, 1066132356],
  [4234897737, 433413851, 3906277256, 2860644677, 401605876, 345951064, 3507111741, 3944318990])]

end BasePointDoublings
