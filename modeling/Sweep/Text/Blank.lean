import Sweep.Text.CodeTable

/-!
This module contains the blank characters, those with the Unicode property `White_Space`, and the
two ways of dropping them from a text.
-/

namespace Sweep.Text

def blanks : CodeTable where
  ranges :=
    [(0x09, 0x0d), (0x20, 0x20), (0x85, 0x85), (0xa0, 0xa0), (0x1680, 0x1680), (0x2000, 0x200a),
      (0x2028, 0x2029), (0x202f, 0x202f), (0x205f, 0x205f), (0x3000, 0x3000)]

def isBlank (c : Char) : Bool :=
  blanks.contains c

def whiteSpace : List Nat :=
  [0x09, 0x0a, 0x0b, 0x0c, 0x0d, 0x20, 0x85, 0xa0, 0x1680, 0x2000, 0x2001, 0x2002, 0x2003, 0x2004,
    0x2005, 0x2006, 0x2007, 0x2008, 0x2009, 0x200a, 0x2028, 0x2029, 0x202f, 0x205f, 0x3000]

theorem isBlank_iff (c : Char) : isBlank c ↔ c.toNat ∈ whiteSpace := by
  rw [isBlank, CodeTable.contains_iff]
  simp only [blanks, whiteSpace, List.mem_cons, List.not_mem_nil, or_false, exists_eq_or_imp,
    exists_eq_left]
  omega

def strip (cs : List Char) : List Char :=
  cs.filter fun c => !isBlank c

theorem strip_eq_filter (cs : List Char) : strip cs = cs.filter (·.toNat ∉ whiteSpace) := by
  apply List.filter_congr
  intro c _
  simp [← isBlank_iff]

theorem strip_eq_self {cs : List Char} (h : ∀ c ∈ cs, ¬isBlank c) : strip cs = cs := by
  apply List.filter_eq_self.mpr
  simpa using h

def trim (cs : List Char) : List Char :=
  ((cs.dropWhile isBlank).reverse.dropWhile isBlank).reverse

def byteLength (cs : List Char) : Nat :=
  match cs with
  | [] => 0
  | c :: cs => c.utf8Size + byteLength cs

@[simp]
theorem byteLength_nil : byteLength [] = 0 := by
  rfl

@[simp]
theorem byteLength_cons (c : Char) (cs : List Char) :
    byteLength (c :: cs) = c.utf8Size + byteLength cs := by
  rfl

@[simp]
theorem byteLength_append (cs ds : List Char) :
    byteLength (cs ++ ds) = byteLength cs + byteLength ds := by
  induction cs with
  | nil => simp
  | cons c cs ih => simp [ih, Nat.add_assoc]

end Sweep.Text
