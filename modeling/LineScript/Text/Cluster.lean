/-
Clusters: the characters of a text as a reader counts them.

A letter and the marks on it, a syllable written with several letters, consonants
tied together by a linker, a flag, a carriage return and its line feed are one
cluster each. `clusters` cuts a text by the boundary rules for extended grapheme
clusters. Whether a character joins the cluster before it depends on its class and
on little of what came before: the class of the last character, whether it ends a
pictograph that a joiner may continue, whether it ends a conjunct that a consonant
may continue, and whether it is the first half of a flag. `Tail` keeps just that.

Cutting loses nothing (`flatten_clusters`), and no cluster is empty
(`ne_nil_of_mem_clusters`).
-/
import LineScript.Text.Mark

namespace LineScript.Text

/-! ### Classes -/

/-- What a character is to the boundary rules. -/
inductive BreakClass
  | carriageReturn
  | lineFeed
  | control
  | mark
  | linker
  | nonJoiner
  | joiner
  | spacingMark
  | prepended
  | flagHalf
  | leadingJamo
  | vowelJamo
  | trailingJamo
  | openSyllable
  | closedSyllable
  | pictograph
  | consonant
  | other
  deriving DecidableEq

/-- A character of the class extends the character before it. -/
def BreakClass.isMark : BreakClass → Bool
  | .mark | .linker | .nonJoiner => true
  | _ => false

/-- Controls, format characters and separators. Carriage return and line feed have
classes of their own. -/
def controlRanges : CodeRanges :=
  [(0x0, 0x9), (0xB, 0xC), (0xE, 0x1F), (0x7F, 0x9F), (0xAD, 0xAD), (0x61C, 0x61C),
   (0x180E, 0x180E), (0x200B, 0x200B), (0x200E, 0x200F), (0x2028, 0x202E), (0x2060, 0x206F),
   (0xFEFF, 0xFEFF), (0xFFF0, 0xFFFB), (0x13430, 0x1343F), (0x1BCA0, 0x1BCA3),
   (0x1D173, 0x1D17A), (0xE0000, 0xE001F), (0xE0080, 0xE00FF), (0xE01F0, 0xE0FFF)]

/-- Signs written in front of the character they belong to. -/
def prependedRanges : CodeRanges :=
  [(0x600, 0x605), (0x6DD, 0x6DD), (0x70F, 0x70F), (0x890, 0x891), (0x8E2, 0x8E2),
   (0xD4E, 0xD4E), (0x110BD, 0x110BD), (0x110CD, 0x110CD), (0x111C2, 0x111C3),
   (0x113D1, 0x113D1), (0x1193F, 0x1193F), (0x11941, 0x11941), (0x11A84, 0x11A89),
   (0x11D46, 0x11D46), (0x11F02, 0x11F02)]

/-- Pictographs, those to come included. -/
def pictographRanges : CodeRanges :=
  [(0xA9, 0xA9), (0xAE, 0xAE), (0x203C, 0x203C), (0x2049, 0x2049), (0x2122, 0x2122),
   (0x2139, 0x2139), (0x2194, 0x2199), (0x21A9, 0x21AA), (0x231A, 0x231B), (0x2328, 0x2328),
   (0x23CF, 0x23CF), (0x23E9, 0x23F3), (0x23F8, 0x23FA), (0x24C2, 0x24C2), (0x25AA, 0x25AB),
   (0x25B6, 0x25B6), (0x25C0, 0x25C0), (0x25FB, 0x25FE), (0x2600, 0x2604), (0x260E, 0x260E),
   (0x2611, 0x2611), (0x2614, 0x2615), (0x2618, 0x2618), (0x261D, 0x261D), (0x2620, 0x2620),
   (0x2622, 0x2623), (0x2626, 0x2626), (0x262A, 0x262A), (0x262E, 0x262F), (0x2638, 0x263A),
   (0x2640, 0x2640), (0x2642, 0x2642), (0x2648, 0x2653), (0x265F, 0x2660), (0x2663, 0x2663),
   (0x2665, 0x2666), (0x2668, 0x2668), (0x267B, 0x267B), (0x267E, 0x267F), (0x2692, 0x2697),
   (0x2699, 0x2699), (0x269B, 0x269C), (0x26A0, 0x26A1), (0x26A7, 0x26A7), (0x26AA, 0x26AB),
   (0x26B0, 0x26B1), (0x26BD, 0x26BE), (0x26C4, 0x26C5), (0x26C8, 0x26C8), (0x26CE, 0x26CF),
   (0x26D1, 0x26D1), (0x26D3, 0x26D4), (0x26E9, 0x26EA), (0x26F0, 0x26F5), (0x26F7, 0x26FA),
   (0x26FD, 0x26FD), (0x2702, 0x2702), (0x2705, 0x2705), (0x2708, 0x270D), (0x270F, 0x270F),
   (0x2712, 0x2712), (0x2714, 0x2714), (0x2716, 0x2716), (0x271D, 0x271D), (0x2721, 0x2721),
   (0x2728, 0x2728), (0x2733, 0x2734), (0x2744, 0x2744), (0x2747, 0x2747), (0x274C, 0x274C),
   (0x274E, 0x274E), (0x2753, 0x2755), (0x2757, 0x2757), (0x2763, 0x2764), (0x2795, 0x2797),
   (0x27A1, 0x27A1), (0x27B0, 0x27B0), (0x27BF, 0x27BF), (0x2934, 0x2935), (0x2B05, 0x2B07),
   (0x2B1B, 0x2B1C), (0x2B50, 0x2B50), (0x2B55, 0x2B55), (0x3030, 0x3030), (0x303D, 0x303D),
   (0x3297, 0x3297), (0x3299, 0x3299), (0x1F004, 0x1F004), (0x1F02C, 0x1F02F),
   (0x1F094, 0x1F09F), (0x1F0AF, 0x1F0B0), (0x1F0C0, 0x1F0C0), (0x1F0CF, 0x1F0D0),
   (0x1F0F6, 0x1F0FF), (0x1F170, 0x1F171), (0x1F17E, 0x1F17F), (0x1F18E, 0x1F18E),
   (0x1F191, 0x1F19A), (0x1F1AE, 0x1F1E5), (0x1F201, 0x1F20F), (0x1F21A, 0x1F21A),
   (0x1F22F, 0x1F22F), (0x1F232, 0x1F23A), (0x1F23C, 0x1F23F), (0x1F249, 0x1F25F),
   (0x1F266, 0x1F321), (0x1F324, 0x1F393), (0x1F396, 0x1F397), (0x1F399, 0x1F39B),
   (0x1F39E, 0x1F3F0), (0x1F3F3, 0x1F3F5), (0x1F3F7, 0x1F3FA), (0x1F400, 0x1F4FD),
   (0x1F4FF, 0x1F53D), (0x1F549, 0x1F54E), (0x1F550, 0x1F567), (0x1F56F, 0x1F570),
   (0x1F573, 0x1F57A), (0x1F587, 0x1F587), (0x1F58A, 0x1F58D), (0x1F590, 0x1F590),
   (0x1F595, 0x1F596), (0x1F5A4, 0x1F5A5), (0x1F5A8, 0x1F5A8), (0x1F5B1, 0x1F5B2),
   (0x1F5BC, 0x1F5BC), (0x1F5C2, 0x1F5C4), (0x1F5D1, 0x1F5D3), (0x1F5DC, 0x1F5DE),
   (0x1F5E1, 0x1F5E1), (0x1F5E3, 0x1F5E3), (0x1F5E8, 0x1F5E8), (0x1F5EF, 0x1F5EF),
   (0x1F5F3, 0x1F5F3), (0x1F5FA, 0x1F64F), (0x1F680, 0x1F6C5), (0x1F6CB, 0x1F6D2),
   (0x1F6D5, 0x1F6E5), (0x1F6E9, 0x1F6E9), (0x1F6EB, 0x1F6F0), (0x1F6F3, 0x1F6FF),
   (0x1F7DA, 0x1F7FF), (0x1F80C, 0x1F80F), (0x1F848, 0x1F84F), (0x1F85A, 0x1F85F),
   (0x1F888, 0x1F88F), (0x1F8AE, 0x1F8AF), (0x1F8BC, 0x1F8BF), (0x1F8C2, 0x1F8CF),
   (0x1F8D9, 0x1F8FF), (0x1F90C, 0x1F93A), (0x1F93C, 0x1F945), (0x1F947, 0x1F9FF),
   (0x1FA58, 0x1FA5F), (0x1FA6E, 0x1FAFF), (0x1FC00, 0x1FFFD)]

/-- Marks that tie the consonant before them to the one after them. -/
def linkerRanges : CodeRanges :=
  [(0x94D, 0x94D), (0x9CD, 0x9CD), (0xACD, 0xACD), (0xB4D, 0xB4D), (0xC4D, 0xC4D),
   (0xD4D, 0xD4D), (0x1039, 0x1039), (0x17D2, 0x17D2), (0x1A60, 0x1A60), (0x1B44, 0x1B44),
   (0x1BAB, 0x1BAB), (0xA9C0, 0xA9C0), (0xAAF6, 0xAAF6), (0x10A3F, 0x10A3F), (0x11133, 0x11133),
   (0x113D0, 0x113D0), (0x1193E, 0x1193E), (0x11A47, 0x11A47), (0x11A99, 0x11A99),
   (0x11F42, 0x11F42)]

/-- Consonants that can be tied together. -/
def consonantRanges : CodeRanges :=
  [(0x915, 0x939), (0x958, 0x95F), (0x978, 0x97F), (0x995, 0x9A8), (0x9AA, 0x9B0),
   (0x9B2, 0x9B2), (0x9B6, 0x9B9), (0x9DC, 0x9DD), (0x9DF, 0x9DF), (0x9F0, 0x9F1),
   (0xA95, 0xAA8), (0xAAA, 0xAB0), (0xAB2, 0xAB3), (0xAB5, 0xAB9), (0xAF9, 0xAF9),
   (0xB15, 0xB28), (0xB2A, 0xB30), (0xB32, 0xB33), (0xB35, 0xB39), (0xB5C, 0xB5D),
   (0xB5F, 0xB5F), (0xB71, 0xB71), (0xC15, 0xC28), (0xC2A, 0xC39), (0xC58, 0xC5A),
   (0xD15, 0xD3A), (0x1000, 0x102A), (0x103F, 0x103F), (0x1050, 0x1055), (0x105A, 0x105D),
   (0x1061, 0x1061), (0x1065, 0x1066), (0x106E, 0x1070), (0x1075, 0x1081), (0x108E, 0x108E),
   (0x1780, 0x17B3), (0x1A20, 0x1A54), (0x1B0B, 0x1B0C), (0x1B13, 0x1B33), (0x1B45, 0x1B4C),
   (0x1B83, 0x1BA0), (0x1BAE, 0x1BAF), (0x1BBB, 0x1BBD), (0xA989, 0xA98B), (0xA98F, 0xA9B2),
   (0xA9E0, 0xA9E4), (0xA9E7, 0xA9EF), (0xA9FA, 0xA9FE), (0xAA60, 0xAA6F), (0xAA71, 0xAA73),
   (0xAA7A, 0xAA7A), (0xAA7E, 0xAA7F), (0xAAE0, 0xAAEA), (0xABC0, 0xABDA), (0x10A00, 0x10A00),
   (0x10A10, 0x10A13), (0x10A15, 0x10A17), (0x10A19, 0x10A35), (0x11103, 0x11126),
   (0x11144, 0x11144), (0x11147, 0x11147), (0x11380, 0x11389), (0x1138B, 0x1138B),
   (0x1138E, 0x1138E), (0x11390, 0x113B5), (0x11900, 0x11906), (0x11909, 0x11909),
   (0x1190C, 0x11913), (0x11915, 0x11916), (0x11918, 0x1192F), (0x11A00, 0x11A00),
   (0x11A0B, 0x11A32), (0x11A50, 0x11A50), (0x11A5C, 0x11A83), (0x11F04, 0x11F10),
   (0x11F12, 0x11F33)]

/-- The halves of flags. -/
def flagHalfRanges : CodeRanges := [(0x1F1E6, 0x1F1FF)]

/-- Letters that begin a Korean syllable. -/
def leadingJamoRanges : CodeRanges := [(0x1100, 0x115F), (0xA960, 0xA97C)]

/-- Vowels inside a Korean syllable, and the vowel signs of Kirat Rai, which join in
the same way. -/
def vowelJamoRanges : CodeRanges :=
  [(0x1160, 0x11A7), (0xD7B0, 0xD7C6), (0x16D63, 0x16D63), (0x16D67, 0x16D6A)]

/-- Letters that end a Korean syllable. -/
def trailingJamoRanges : CodeRanges := [(0x11A8, 0x11FF), (0xD7CB, 0xD7FB)]

/-- Whole Korean syllables. They are in order of their letters, with twenty-eight
endings each, the first of which is none. -/
def syllableRanges : CodeRanges := [(0xAC00, 0xD7A3)]

/-- The character is a whole syllable without a closing letter. -/
def isOpenSyllable (c : Char) : Bool :=
  inRanges syllableRanges c && (c.toNat - 0xAC00) % 28 = 0

/-- The class of a character. -/
def BreakClass.ofChar (c : Char) : BreakClass :=
  if c = '\r' then .carriageReturn
  else if c = '\n' then .lineFeed
  else if c.toNat = 0x200C then .nonJoiner
  else if c.toNat = 0x200D then .joiner
  else if inRanges controlRanges c then .control
  else if inRanges linkerRanges c then .linker
  else if Text.isMark c || isBroadMark c then .mark
  else if isSpacingMark c then .spacingMark
  else if inRanges prependedRanges c then .prepended
  else if inRanges flagHalfRanges c then .flagHalf
  else if inRanges leadingJamoRanges c then .leadingJamo
  else if inRanges vowelJamoRanges c then .vowelJamo
  else if inRanges trailingJamoRanges c then .trailingJamo
  else if isOpenSyllable c then .openSyllable
  else if inRanges syllableRanges c then .closedSyllable
  else if inRanges pictographRanges c then .pictograph
  else if inRanges consonantRanges c then .consonant
  else .other

/-! ### Boundaries -/

/-- How far a conjunct at the end of a text has got. -/
inductive Conjunct
  /-- There is none. -/
  | absent
  /-- A consonant and marks on it. -/
  | begun
  /-- A consonant and marks on it, a linker among them. -/
  | linked
  deriving DecidableEq

/-- The conjunct once a character of the class has been added to the text. -/
def Conjunct.push (j : Conjunct) : BreakClass → Conjunct
  | .consonant => .begun
  | .linker => if j = .absent then .absent else .linked
  | .mark | .joiner => j
  | _ => .absent

/-- What the end of a text tells about the boundary after it. -/
structure Tail where
  /-- The class of the last character. -/
  last : BreakClass
  /-- The text ends with a pictograph and marks on it. -/
  pictured : Bool := false
  /-- The text ends with a pictograph, marks on it and a joiner. -/
  joined : Bool := false
  /-- The text ends with an odd number of flag halves. -/
  halfFlag : Bool := false
  /-- The conjunct that the text ends with. -/
  conjunct : Conjunct := .absent
  deriving DecidableEq

namespace Tail

/-- The end of the text with one more character. -/
def push (t : Tail) (k : BreakClass) : Tail where
  last := k
  pictured := k = .pictograph || (t.pictured && k.isMark)
  joined := t.pictured && k = .joiner
  halfFlag := k = .flagHalf && !t.halfFlag
  conjunct := t.conjunct.push k

/-- The end of a text that is a single character. -/
def ofClass (k : BreakClass) : Tail := { last := .other : Tail }.push k

/-- A character of the class belongs to the cluster that the text ends with. -/
def admits (t : Tail) (k : BreakClass) : Bool :=
  match t.last, k with
  | .carriageReturn, .lineFeed => true
  | .carriageReturn, _ | .lineFeed, _ | .control, _ => false
  | _, .carriageReturn | _, .lineFeed | _, .control => false
  | _, .mark | _, .linker | _, .nonJoiner | _, .joiner | _, .spacingMark => true
  | .prepended, _ => true
  | .leadingJamo, .leadingJamo | .leadingJamo, .vowelJamo => true
  | .leadingJamo, .openSyllable | .leadingJamo, .closedSyllable => true
  | .openSyllable, .vowelJamo | .openSyllable, .trailingJamo => true
  | .vowelJamo, .vowelJamo | .vowelJamo, .trailingJamo => true
  | .closedSyllable, .trailingJamo | .trailingJamo, .trailingJamo => true
  | _, .consonant => t.conjunct = .linked
  | _, .pictograph => t.joined
  | _, .flagHalf => t.halfFlag
  | _, _ => false

end Tail

/-! ### Clusters -/

/-- Cuts what follows a text that ends as told: the characters that still belong
to its last cluster, and the clusters after it. -/
def cutAfter (t : Tail) : List Char → List Char × List (List Char)
  | [] => ([], [])
  | c :: cs =>
    let k := BreakClass.ofChar c
    let after := cutAfter (t.push k) cs
    if t.admits k then (c :: after.1, after.2) else ([], (c :: after.1) :: after.2)

/-- The clusters of a text, in order. -/
def clusters : List Char → List (List Char)
  | [] => []
  | c :: cs =>
    let after := cutAfter (.ofClass (.ofChar c)) cs
    (c :: after.1) :: after.2

/-- What is cut are the characters, all of them. -/
theorem append_flatten_cutAfter (t : Tail) (cs : List Char) :
    (cutAfter t cs).1 ++ (cutAfter t cs).2.flatten = cs := by
  induction cs generalizing t with
  | nil => rfl
  | cons c cs ih =>
    have h := ih (t.push (.ofChar c))
    simp only [cutAfter]
    split <;> simp [h]

/-- Cutting a text into clusters loses nothing. -/
theorem flatten_clusters (cs : List Char) : (clusters cs).flatten = cs := by
  cases cs with
  | nil => rfl
  | cons c cs => simp [clusters, append_flatten_cutAfter]

theorem ne_nil_of_mem_cutAfter {t : Tail} {cs cluster : List Char}
    (h : cluster ∈ (cutAfter t cs).2) : cluster ≠ [] := by
  induction cs generalizing t with
  | nil => simp [cutAfter] at h
  | cons c cs ih =>
    simp only [cutAfter] at h
    split at h
    · exact ih h
    · rcases List.mem_cons.1 h with rfl | h
      · simp
      · exact ih h

/-- A cluster has at least one character. -/
theorem ne_nil_of_mem_clusters {cs cluster : List Char} (h : cluster ∈ clusters cs) :
    cluster ≠ [] := by
  cases cs with
  | nil => simp [clusters] at h
  | cons c cs =>
    rcases List.mem_cons.1 h with rfl | h
    · simp
    · exact ne_nil_of_mem_cutAfter h

end LineScript.Text
