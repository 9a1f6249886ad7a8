import CCompletion.Text.Basic
import CCompletion.Text.LetterCase

/-!
How many columns a text takes on a terminal. Wide characters and pictographs take two, combining marks
and control characters none; a pictograph made of several characters is one.
-/

namespace CCompletion.Text

open LetterCase

def wideRanges : List (Nat × Nat) :=
  [(0x1100, 0x115F), (0x2329, 0x232A), (0x2E80, 0x303E), (0x3040, 0x3247), (0x3250, 0x4DBF),
   (0x4E00, 0xA4C6), (0xA960, 0xA97C), (0xAC00, 0xD7A3), (0xF900, 0xFAFF), (0xFE10, 0xFE19),
   (0xFE30, 0xFE6B), (0xFF01, 0xFF60), (0xFFE0, 0xFFE6), (0x1B000, 0x1B001), (0x1F200, 0x1F251),
   (0x20000, 0x3FFFD)]

/-- Characters that are pictographs by themselves. -/
def pictographRanges : List (Nat × Nat) :=
  [(0x231A, 0x231B), (0x23E9, 0x23EC), (0x23F0, 0x23F0), (0x23F3, 0x23F3), (0x25FD, 0x25FE),
   (0x2614, 0x2615), (0x2648, 0x2653), (0x267F, 0x267F), (0x2693, 0x2693), (0x26A1, 0x26A1),
   (0x26AA, 0x26AB), (0x26BD, 0x26BE), (0x26C4, 0x26C5), (0x26CE, 0x26CE), (0x26D4, 0x26D4),
   (0x26EA, 0x26EA), (0x26F2, 0x26F3), (0x26F5, 0x26F5), (0x26FA, 0x26FA), (0x26FD, 0x26FD),
   (0x2705, 0x2705), (0x270A, 0x270B), (0x2728, 0x2728), (0x274C, 0x274C), (0x274E, 0x274E),
   (0x2753, 0x2755), (0x2757, 0x2757), (0x2795, 0x2797), (0x27B0, 0x27B0), (0x27BF, 0x27BF),
   (0x2B1B, 0x2B1C), (0x2B50, 0x2B50), (0x2B55, 0x2B55), (0x1F004, 0x1F004), (0x1F0CF, 0x1F0CF),
   (0x1F18E, 0x1F18E), (0x1F191, 0x1F19A), (0x1F1E6, 0x1F1FF), (0x1F201, 0x1F201),
   (0x1F21A, 0x1F21A), (0x1F22F, 0x1F22F), (0x1F232, 0x1F236), (0x1F238, 0x1F23A),
   (0x1F250, 0x1F251), (0x1F300, 0x1F320), (0x1F32D, 0x1F335), (0x1F337, 0x1F37C),
   (0x1F37E, 0x1F393), (0x1F3A0, 0x1F3CA), (0x1F3CF, 0x1F3D3), (0x1F3E0, 0x1F3F0),
   (0x1F3F4, 0x1F3F4), (0x1F3F8, 0x1F43E), (0x1F440, 0x1F440), (0x1F442, 0x1F4FC),
   (0x1F4FF, 0x1F53D), (0x1F54B, 0x1F54E), (0x1F550, 0x1F567), (0x1F57A, 0x1F57A),
   (0x1F595, 0x1F596), (0x1F5A4, 0x1F5A4), (0x1F5FB, 0x1F64F), (0x1F680, 0x1F6C5),
   (0x1F6CC, 0x1F6CC), (0x1F6D0, 0x1F6D2), (0x1F6D5, 0x1F6D5), (0x1F6EB, 0x1F6EC),
   (0x1F6F4, 0x1F6FA), (0x1F7E0, 0x1F7EB), (0x1F90D, 0x1F93A), (0x1F93C, 0x1F945),
   (0x1F947, 0x1F971), (0x1F973, 0x1F976), (0x1F97A, 0x1F9A2), (0x1F9A5, 0x1F9AA),
   (0x1F9AE, 0x1F9CA), (0x1F9CD, 0x1F9FF), (0x1FA70, 0x1FA73), (0x1FA78, 0x1FA7A),
   (0x1FA80, 0x1FA82), (0x1FA90, 0x1FA95)]

/-- Characters that are pictographs when a variation selector follows them. -/
def selectableRanges : List (Nat × Nat) :=
  [(0xA9, 0xA9), (0xAE, 0xAE), (0x203C, 0x203C), (0x2049, 0x2049), (0x2122, 0x2122), (0x2139, 0x2139),
   (0x2194, 0x2199), (0x21A9, 0x21AA), (0x2328, 0x2328), (0x23CF, 0x23CF), (0x23ED, 0x23EF),
   (0x23F1, 0x23F2), (0x23F8, 0x23FA), (0x24C2, 0x24C2), (0x25AA, 0x25AB), (0x25B6, 0x25B6),
   (0x25C0, 0x25C0), (0x25FB, 0x25FC), (0x2600, 0x2604), (0x260E, 0x260E), (0x2611, 0x2611),
   (0x2618, 0x2618), (0x261D, 0x261D), (0x2620, 0x2620), (0x2622, 0x2623), (0x2626, 0x2626),
   (0x262A, 0x262A), (0x262E, 0x262F), (0x2638, 0x263A), (0x2640, 0x2640), (0x2642, 0x2642),
   (0x265F, 0x2660), (0x2663, 0x2663), (0x2665, 0x2666), (0x2668, 0x2668), (0x267B, 0x267B),
   (0x267E, 0x267E), (0x2692, 0x2692), (0x2694, 0x2697), (0x2699, 0x2699), (0x269B, 0x269C),
   (0x26A0, 0x26A0), (0x26B0, 0x26B1), (0x26C8, 0x26C8), (0x26CF, 0x26CF), (0x26D1, 0x26D1),
   (0x26D3, 0x26D3), (0x26E9, 0x26E9), (0x26F0, 0x26F1), (0x26F4, 0x26F4), (0x26F7, 0x26F9),
   (0x2702, 0x2702), (0x2708, 0x2709), (0x270C, 0x270D), (0x270F, 0x270F), (0x2712, 0x2712),
   (0x2714, 0x2714), (0x2716, 0x2716), (0x271D, 0x271D), (0x2721, 0x2721), (0x2733, 0x2734),
   (0x2744, 0x2744), (0x2747, 0x2747), (0x2763, 0x2764), (0x27A1, 0x27A1), (0x2934, 0x2935),
   (0x2B05, 0x2B07), (0x3030, 0x3030), (0x303D, 0x303D), (0x3297, 0x3297), (0x3299, 0x3299),
   (0x1F000, 0x1FAFF)]

/-- Pictographs that a skin tone may follow. -/
def tonedRanges : List (Nat × Nat) :=
  [(0x261D, 0x261D), (0x26F9, 0x26F9), (0x270A, 0x270D), (0x1F385, 0x1F385), (0x1F3C2, 0x1F3C4),
   (0x1F3C7, 0x1F3C7), (0x1F3CA, 0x1F3CC), (0x1F442, 0x1F443), (0x1F446, 0x1F450), (0x1F466, 0x1F478),
   (0x1F47C, 0x1F47C), (0x1F481, 0x1F483), (0x1F485, 0x1F487), (0x1F48F, 0x1F48F), (0x1F491, 0x1F491),
   (0x1F4AA, 0x1F4AA), (0x1F574, 0x1F575), (0x1F57A, 0x1F57A), (0x1F590, 0x1F590), (0x1F595, 0x1F596),
   (0x1F645, 0x1F647), (0x1F64B, 0x1F64F), (0x1F6A3, 0x1F6A3), (0x1F6B4, 0x1F6B6), (0x1F6C0, 0x1F6C0),
   (0x1F6CC, 0x1F6CC), (0x1F90F, 0x1F90F), (0x1F918, 0x1F91F), (0x1F926, 0x1F926), (0x1F930, 0x1F939),
   (0x1F93C, 0x1F93E), (0x1F9B5, 0x1F9B6), (0x1F9B8, 0x1F9B9), (0x1F9BB, 0x1F9BB), (0x1F9CD, 0x1F9CF),
   (0x1F9D1, 0x1F9DD)]

/-- The width of a character that is no pictograph. -/
def plainColumns (c : Nat) : Nat :=
  if c < 0x20 ∨ (0x7F ≤ c ∧ c ≤ 0x9F) then 0
  else if 0x300 ≤ c ∧ c ≤ 0x36F then 0
  else if inRanges wideRanges c then 2
  else 1

def variationSelector : Nat := 0xFE0F

def joiner : Nat := 0x200D

def isPictograph (c : Nat) : Bool := inRanges pictographRanges c

def isRegional (c : Nat) : Bool := 0x1F1E6 ≤ c && c ≤ 0x1F1FF

/-- Is the character a skin tone? -/
def isTone (c : Nat) : Bool := 0x1F3FB ≤ c && c ≤ 0x1F3FF

/-- What the pictograph before a character still takes in. -/
inductive Pending where
  | nothing
  /-- The second letter of a flag. -/
  | flag
  /-- More characters behind a joiner and, if it has one, a tone. -/
  | pictograph (toned : Bool)
  /-- As before, and a variation selector. -/
  | joined (toned : Bool)

def Pending.isPictograph : Pending → Bool
  | pictograph _ | joined _ => true
  | _ => false

/-- Does the pictograph take in a character without a joiner? -/
def Pending.takes (p : Pending) (c : Nat) : Bool :=
  match p with
  | flag => isRegional c
  | joined toned => (toned && isTone c) || c == variationSelector
  | pictograph toned => toned && isTone c
  | nothing => false

/-- What is pending once a character has been taken in. -/
def Pending.after : Pending → Pending
  | flag => nothing
  | joined _ => pictograph false
  | p => p

/-- What is pending behind a character that is a pictograph by itself. -/
def Pending.behind (c : Nat) : Pending :=
  if isRegional c then flag else pictograph (inRanges tonedRanges c)

/-- The number of columns of characters. -/
def columnsFrom (pending : Pending) : List Nat → Nat
  | [] => 0
  | [c] => if pending.takes c then 0 else if isPictograph c then 2 else plainColumns c
  | c :: d :: rest =>
    if pending.takes c then columnsFrom pending.after (d :: rest)
    else if pending.isPictograph ∧ c = joiner ∧ (isPictograph d ∨ inRanges selectableRanges d) then
      columnsFrom (.joined (inRanges tonedRanges d)) rest
    else if isPictograph c then 2 + columnsFrom (.behind c) (d :: rest)
    else if d = variationSelector ∧ inRanges selectableRanges c then 2 + columnsFrom (.pictograph false) rest
    else plainColumns c + columnsFrom .nothing (d :: rest)

/-- Digits and the semicolons between them. -/
def isColorUnit (u : CodeUnit) : Bool := (48 ≤ u && u ≤ 57) || u == unit ';'

/-- How many units the text starts with that set a colour: an escape, a bracket, numbers and `m`. -/
def colorLength : Text → Nat
  | 0x1B :: 0x5B :: rest =>
    let numbers := rest.takeWhile isColorUnit
    if (rest.drop numbers.length).head? = some (unit 'm') then numbers.length + 3 else 0
  | _ => 0

/-- The text without what sets colours, the next `skipped` units being left out. -/
def withoutColors (skipped : Nat) : Text → Text
  | [] => []
  | u :: rest =>
    match skipped, colorLength (u :: rest) with
    | k + 1, _ => withoutColors k rest
    | 0, 0 => u :: withoutColors 0 rest
    | 0, n + 1 => withoutColors n rest

/-- The number of columns of the widest line. -/
def columns (t : Text) : Nat :=
  ((withoutColors 0 t).lines.map fun line => columnsFrom .nothing line.toCodePoints).foldl max 0

end CCompletion.Text
