/-!
White space: the characters with the `White_Space` property of Unicode, and what is left of a text
without them.
-/

namespace VisualProgram.Text

def blankRanges : List (Nat × Nat) :=
  [(0x9, 0xD), (0x20, 0x20), (0x85, 0x85), (0xA0, 0xA0), (0x1680, 0x1680), (0x2000, 0x200A),
    (0x2028, 0x2029), (0x202F, 0x202F), (0x205F, 0x205F), (0x3000, 0x3000)]

def isBlank (c : Char) : Bool :=
  blankRanges.any fun r => r.1 ≤ c.toNat && c.toNat ≤ r.2

theorem isBlank_of_isWhitespace {c : Char} (h : c.isWhitespace = true) : isBlank c = true := by
  simp only [Char.isWhitespace, Bool.or_eq_true, decide_eq_true_eq] at h
  rcases h with ((rfl | rfl) | rfl) | rfl <;> decide

def blankText (s : String) : Bool :=
  s.toList.all isBlank

def dropTrailing (p : Char → Bool) : List Char → List Char
  | [] => []
  | c :: cs =>
    match dropTrailing p cs with
    | [] => if p c then [] else [c]
    | rest => c :: rest

theorem dropTrailing_append_of_all {p : Char → Bool} (cs : List Char) {end_ : List Char}
    (h : ∀ c ∈ end_, p c = true) : dropTrailing p (cs ++ end_) = dropTrailing p cs := by
  have hend : dropTrailing p end_ = [] := by
    induction end_ with
    | nil => rfl
    | cons c rest ih =>
      simp only [dropTrailing, ih fun d hd => h d (List.mem_cons_of_mem _ hd),
        h c (List.mem_cons_self), if_true]
  induction cs with
  | nil => simpa [dropTrailing] using hend
  | cons c cs ih => simp only [List.cons_append, dropTrailing, ih]

def trim (s : String) : String :=
  String.ofList (dropTrailing isBlank (s.toList.dropWhile isBlank))

def compact (s : String) : String :=
  String.ofList (s.toList.filter fun c => !isBlank c)

def dropFeeds (s : String) : String :=
  String.ofList (dropTrailing (· == '\n') s.toList)

end VisualProgram.Text
