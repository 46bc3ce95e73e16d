import FlowCompiler.Text.CodeRange
import FlowCompiler.Text.Octets

/-!
# Letter case

Upper and lower case of a single character. A character maps to one character; characters without a
counterpart map to themselves. Most letters come in pairs that map to each other.
-/

namespace FlowCompiler.Text

/-- The lower-case letters outside ASCII that come in a pair, with the distance to the upper-case one. -/
def casePairs : List (CodeRange × Int) := [
  (⟨224, 246, 1⟩, -32), (⟨248, 254, 1⟩, -32), (⟨255, 255, 1⟩, 121), (⟨257, 303, 2⟩, -1),
  (⟨307, 311, 2⟩, -1), (⟨314, 328, 2⟩, -1), (⟨331, 375, 2⟩, -1), (⟨378, 382, 2⟩, -1),
  (⟨384, 384, 1⟩, 195), (⟨387, 389, 2⟩, -1), (⟨392, 392, 1⟩, -1), (⟨396, 396, 1⟩, -1),
  (⟨402, 402, 1⟩, -1), (⟨405, 405, 1⟩, 97), (⟨409, 409, 1⟩, -1), (⟨410, 410, 1⟩, 163),
  (⟨411, 411, 1⟩, 42561), (⟨414, 414, 1⟩, 130), (⟨417, 421, 2⟩, -1), (⟨424, 424, 1⟩, -1),
  (⟨429, 429, 1⟩, -1), (⟨432, 432, 1⟩, -1), (⟨436, 438, 2⟩, -1), (⟨441, 441, 1⟩, -1),
  (⟨445, 445, 1⟩, -1), (⟨447, 447, 1⟩, 56), (⟨454, 454, 1⟩, -2), (⟨457, 457, 1⟩, -2),
  (⟨460, 460, 1⟩, -2), (⟨462, 476, 2⟩, -1), (⟨477, 477, 1⟩, -79), (⟨479, 495, 2⟩, -1),
  (⟨499, 499, 1⟩, -2), (⟨501, 501, 1⟩, -1), (⟨505, 543, 2⟩, -1), (⟨547, 563, 2⟩, -1),
  (⟨572, 572, 1⟩, -1), (⟨575, 576, 1⟩, 10815), (⟨578, 578, 1⟩, -1), (⟨583, 591, 2⟩, -1),
  (⟨592, 592, 1⟩, 10783), (⟨593, 593, 1⟩, 10780), (⟨594, 594, 1⟩, 10782), (⟨595, 595, 1⟩, -210),
  (⟨596, 596, 1⟩, -206), (⟨598, 599, 1⟩, -205), (⟨601, 601, 1⟩, -202), (⟨603, 603, 1⟩, -203),
  (⟨604, 604, 1⟩, 42319), (⟨608, 608, 1⟩, -205), (⟨609, 609, 1⟩, 42315), (⟨611, 611, 1⟩, -207),
  (⟨612, 612, 1⟩, 42343), (⟨613, 613, 1⟩, 42280), (⟨614, 614, 1⟩, 42308), (⟨616, 616, 1⟩, -209),
  (⟨617, 617, 1⟩, -211), (⟨618, 618, 1⟩, 42308), (⟨619, 619, 1⟩, 10743), (⟨620, 620, 1⟩, 42305),
  (⟨623, 623, 1⟩, -211), (⟨625, 625, 1⟩, 10749), (⟨626, 626, 1⟩, -213), (⟨629, 629, 1⟩, -214),
  (⟨637, 637, 1⟩, 10727), (⟨640, 640, 1⟩, -218), (⟨642, 642, 1⟩, 42307), (⟨643, 643, 1⟩, -218),
  (⟨647, 647, 1⟩, 42282), (⟨648, 648, 1⟩, -218), (⟨649, 649, 1⟩, -69), (⟨650, 651, 1⟩, -217),
  (⟨652, 652, 1⟩, -71), (⟨658, 658, 1⟩, -219), (⟨669, 669, 1⟩, 42261), (⟨670, 670, 1⟩, 42258),
  (⟨881, 883, 2⟩, -1), (⟨887, 887, 1⟩, -1), (⟨891, 893, 1⟩, 130), (⟨940, 940, 1⟩, -38),
  (⟨941, 943, 1⟩, -37), (⟨945, 961, 1⟩, -32), (⟨963, 971, 1⟩, -32), (⟨972, 972, 1⟩, -64),
  (⟨973, 974, 1⟩, -63), (⟨983, 983, 1⟩, -8), (⟨985, 1007, 2⟩, -1), (⟨1010, 1010, 1⟩, 7),
  (⟨1011, 1011, 1⟩, -116), (⟨1016, 1016, 1⟩, -1), (⟨1019, 1019, 1⟩, -1), (⟨1072, 1103, 1⟩, -32),
  (⟨1104, 1119, 1⟩, -80), (⟨1121, 1153, 2⟩, -1), (⟨1163, 1215, 2⟩, -1), (⟨1218, 1230, 2⟩, -1),
  (⟨1231, 1231, 1⟩, -15), (⟨1233, 1327, 2⟩, -1), (⟨1377, 1414, 1⟩, -48), (⟨4304, 4346, 1⟩, 3008),
  (⟨4349, 4351, 1⟩, 3008), (⟨5112, 5117, 1⟩, -8), (⟨7306, 7306, 1⟩, -1), (⟨7545, 7545, 1⟩, 35332),
  (⟨7549, 7549, 1⟩, 3814), (⟨7566, 7566, 1⟩, 35384), (⟨7681, 7829, 2⟩, -1), (⟨7841, 7935, 2⟩, -1),
  (⟨7936, 7943, 1⟩, 8), (⟨7952, 7957, 1⟩, 8), (⟨7968, 7975, 1⟩, 8), (⟨7984, 7991, 1⟩, 8),
  (⟨8000, 8005, 1⟩, 8), (⟨8017, 8017, 1⟩, 8), (⟨8019, 8019, 1⟩, 8), (⟨8021, 8021, 1⟩, 8),
  (⟨8023, 8023, 1⟩, 8), (⟨8032, 8039, 1⟩, 8), (⟨8048, 8049, 1⟩, 74), (⟨8050, 8053, 1⟩, 86),
  (⟨8054, 8055, 1⟩, 100), (⟨8056, 8057, 1⟩, 128), (⟨8058, 8059, 1⟩, 112), (⟨8060, 8061, 1⟩, 126),
  (⟨8064, 8071, 1⟩, 8), (⟨8080, 8087, 1⟩, 8), (⟨8096, 8103, 1⟩, 8), (⟨8112, 8113, 1⟩, 8),
  (⟨8115, 8115, 1⟩, 9), (⟨8131, 8131, 1⟩, 9), (⟨8144, 8145, 1⟩, 8), (⟨8160, 8161, 1⟩, 8),
  (⟨8165, 8165, 1⟩, 7), (⟨8179, 8179, 1⟩, 9), (⟨8526, 8526, 1⟩, -28), (⟨8560, 8575, 1⟩, -16),
  (⟨8580, 8580, 1⟩, -1), (⟨9424, 9449, 1⟩, -26), (⟨11312, 11359, 1⟩, -48), (⟨11361, 11361, 1⟩, -1),
  (⟨11365, 11365, 1⟩, -10795), (⟨11366, 11366, 1⟩, -10792), (⟨11368, 11372, 2⟩, -1),
  (⟨11379, 11379, 1⟩, -1), (⟨11382, 11382, 1⟩, -1), (⟨11393, 11491, 2⟩, -1),
  (⟨11500, 11502, 2⟩, -1), (⟨11507, 11507, 1⟩, -1), (⟨11520, 11557, 1⟩, -7264),
  (⟨11559, 11559, 1⟩, -7264), (⟨11565, 11565, 1⟩, -7264), (⟨42561, 42605, 2⟩, -1),
  (⟨42625, 42651, 2⟩, -1), (⟨42787, 42799, 2⟩, -1), (⟨42803, 42863, 2⟩, -1),
  (⟨42874, 42876, 2⟩, -1), (⟨42879, 42887, 2⟩, -1), (⟨42892, 42892, 1⟩, -1),
  (⟨42897, 42899, 2⟩, -1), (⟨42900, 42900, 1⟩, 48), (⟨42903, 42921, 2⟩, -1),
  (⟨42933, 42947, 2⟩, -1), (⟨42952, 42954, 2⟩, -1), (⟨42957, 42971, 2⟩, -1),
  (⟨42998, 42998, 1⟩, -1), (⟨43859, 43859, 1⟩, -928), (⟨43888, 43967, 1⟩, -38864),
  (⟨65345, 65370, 1⟩, -32), (⟨66600, 66639, 1⟩, -40), (⟨66776, 66811, 1⟩, -40),
  (⟨66967, 66977, 1⟩, -39), (⟨66979, 66993, 1⟩, -39), (⟨66995, 67001, 1⟩, -39),
  (⟨67003, 67004, 1⟩, -39), (⟨68800, 68850, 1⟩, -64), (⟨68976, 68997, 1⟩, -32),
  (⟨71872, 71903, 1⟩, -32), (⟨93792, 93823, 1⟩, -32), (⟨93883, 93907, 1⟩, -27),
  (⟨125218, 125251, 1⟩, -34)]

/-- Characters outside ASCII with an upper case that has another lower case, or none. -/
def loneLower : List (Nat × Nat) := [
  (181, 924), (305, 73), (383, 83), (453, 452), (456, 455), (459, 458), (498, 497), (837, 921),
  (962, 931), (976, 914), (977, 920), (981, 934), (982, 928), (1008, 922), (1009, 929), (1013, 917),
  (7296, 1042), (7297, 1044), (7298, 1054), (7299, 1057), (7300, 1058), (7301, 1058), (7302, 1066),
  (7303, 1122), (7304, 42570), (7835, 7776), (8126, 921)]

/-- Characters outside ASCII with a lower case that has another upper case, or none. -/
def loneUpper : List (Nat × Nat) := [
  (304, 105), (453, 454), (456, 457), (459, 460), (498, 499), (1012, 952), (7838, 223), (8486, 969),
  (8490, 107), (8491, 229)]

/-- The distance between two code points, as an entry of a table. -/
def shiftTo (pair : Nat × Nat) : CodeRange × Int := (⟨pair.1, pair.1, 1⟩, (pair.2 : Int) - pair.1)

/-- Distance to the upper-case letter, outside ASCII. -/
def upperShifts : List (CodeRange × Int) := casePairs ++ loneLower.map shiftTo

/-- Distance to the lower-case letter, outside ASCII. -/
def lowerShifts : List (CodeRange × Int) :=
  casePairs.map (fun entry => (entry.1.shift entry.2, -entry.2)) ++ loneUpper.map shiftTo

/-- Moves `c` by the distance that the first range holding it gives. -/
def shiftBy (table : List (CodeRange × Int)) (c : Char) : Char :=
  match table.find? (fun entry => entry.1.holds c) with
  | some (_, distance) => Char.ofNat (c.toNat + distance).toNat
  | none => c

def toUpper (c : Char) : Char :=
  if c.toNat < 128 then c.toUpper else shiftBy upperShifts c

def toLower (c : Char) : Char :=
  if c.toNat < 128 then c.toLower else shiftBy lowerShifts c

/-- Lower case of a text. Bytes that belong to no character become the replacement character. -/
def lowercase (s : String) : String := received (String.ofList ((shownChars s.toList).map toLower))

end FlowCompiler.Text
