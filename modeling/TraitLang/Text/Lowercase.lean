/-!
The Unicode property Lowercase (version 16), as runs of code points. Names that start with such a
character are type variables.
-/
namespace TraitLang.Text

/-- Runs of lowercase code points: first, last and the step between neighbours. -/
private def lowercaseRuns : List (Nat × Nat × Nat) := [
    (97, 122, 1), (170, 170, 1), (181, 181, 1), (186, 186, 1), (223, 246, 1), (248, 255, 1),
    (257, 309, 2), (311, 312, 1), (314, 326, 2), (328, 329, 1), (331, 375, 2), (378, 380, 2),
    (382, 384, 1), (387, 389, 2), (392, 392, 1), (396, 397, 1), (402, 402, 1), (405, 405, 1),
    (409, 411, 1), (414, 414, 1), (417, 421, 2), (424, 424, 1), (426, 427, 1), (429, 429, 1),
    (432, 432, 1), (436, 438, 2), (441, 442, 1), (445, 447, 1), (454, 454, 1), (457, 457, 1),
    (460, 474, 2), (476, 477, 1), (479, 493, 2), (495, 496, 1), (499, 501, 2), (505, 561, 2),
    (563, 569, 1), (572, 572, 1), (575, 576, 1), (578, 578, 1), (583, 589, 2), (591, 659, 1),
    (661, 696, 1), (704, 705, 1), (736, 740, 1), (837, 837, 1), (881, 883, 2), (887, 887, 1),
    (890, 893, 1), (912, 912, 1), (940, 974, 1), (976, 977, 1), (981, 983, 1), (985, 1005, 2),
    (1007, 1011, 1), (1013, 1013, 1), (1016, 1016, 1), (1019, 1020, 1), (1072, 1119, 1),
    (1121, 1153, 2), (1163, 1215, 2), (1218, 1228, 2), (1230, 1231, 1), (1233, 1327, 2),
    (1376, 1416, 1), (4304, 4346, 1), (4348, 4351, 1), (5112, 5117, 1), (7296, 7304, 1),
    (7306, 7306, 1), (7424, 7615, 1), (7681, 7827, 2), (7829, 7837, 1), (7839, 7933, 2),
    (7935, 7943, 1), (7952, 7957, 1), (7968, 7975, 1), (7984, 7991, 1), (8000, 8005, 1),
    (8016, 8023, 1), (8032, 8039, 1), (8048, 8061, 1), (8064, 8071, 1), (8080, 8087, 1),
    (8096, 8103, 1), (8112, 8116, 1), (8118, 8119, 1), (8126, 8126, 1), (8130, 8132, 1),
    (8134, 8135, 1), (8144, 8147, 1), (8150, 8151, 1), (8160, 8167, 1), (8178, 8180, 1),
    (8182, 8183, 1), (8305, 8305, 1), (8319, 8319, 1), (8336, 8348, 1), (8458, 8458, 1),
    (8462, 8463, 1), (8467, 8467, 1), (8495, 8495, 1), (8500, 8500, 1), (8505, 8505, 1),
    (8508, 8509, 1), (8518, 8521, 1), (8526, 8526, 1), (8560, 8575, 1), (8580, 8580, 1),
    (9424, 9449, 1), (11312, 11359, 1), (11361, 11361, 1), (11365, 11366, 1), (11368, 11372, 2),
    (11377, 11377, 1), (11379, 11380, 1), (11382, 11389, 1), (11393, 11489, 2), (11491, 11492, 1),
    (11500, 11502, 2), (11507, 11507, 1), (11520, 11557, 1), (11559, 11559, 1), (11565, 11565, 1),
    (42561, 42605, 2), (42625, 42649, 2), (42651, 42653, 1), (42787, 42797, 2), (42799, 42801, 1),
    (42803, 42861, 2), (42863, 42872, 1), (42874, 42876, 2), (42879, 42887, 2), (42892, 42894, 2),
    (42897, 42897, 1), (42899, 42901, 1), (42903, 42921, 2), (42927, 42927, 1), (42933, 42947, 2),
    (42952, 42954, 2), (42957, 42957, 1), (42961, 42971, 2), (42994, 42996, 1), (42998, 42998, 1),
    (43000, 43002, 1), (43824, 43866, 1), (43868, 43881, 1), (43888, 43967, 1), (64256, 64262, 1),
    (64275, 64279, 1), (65345, 65370, 1), (66600, 66639, 1), (66776, 66811, 1), (66967, 66977, 1),
    (66979, 66993, 1), (66995, 67001, 1), (67003, 67004, 1), (67456, 67456, 1), (67459, 67461, 1),
    (67463, 67504, 1), (67506, 67514, 1), (68800, 68850, 1), (68976, 68997, 1), (71872, 71903, 1),
    (93792, 93823, 1), (119834, 119859, 1), (119886, 119892, 1), (119894, 119911, 1),
    (119938, 119963, 1), (119990, 119993, 1), (119995, 119995, 1), (119997, 120003, 1),
    (120005, 120015, 1), (120042, 120067, 1), (120094, 120119, 1), (120146, 120171, 1),
    (120198, 120223, 1), (120250, 120275, 1), (120302, 120327, 1), (120354, 120379, 1),
    (120406, 120431, 1), (120458, 120485, 1), (120514, 120538, 1), (120540, 120545, 1),
    (120572, 120596, 1), (120598, 120603, 1), (120630, 120654, 1), (120656, 120661, 1),
    (120688, 120712, 1), (120714, 120719, 1), (120746, 120770, 1), (120772, 120777, 1),
    (120779, 120779, 1), (122624, 122633, 1), (122635, 122654, 1), (122661, 122666, 1),
    (122928, 122989, 1), (125218, 125251, 1)]

/-- A character with the property Lowercase. -/
def isLowercase (c : Char) : Bool :=
  lowercaseRuns.any fun (first, last, step) =>
    first ≤ c.toNat && c.toNat ≤ last && (c.toNat - first) % step == 0

end TraitLang.Text
