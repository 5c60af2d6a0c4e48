import VisualProgram.Json.Number
import VisualProgram.Json.Quoted

namespace VisualProgram.Json.Reader

def skipScalar (first : Char) : Reader Unit :=
  match first with
  | 'n' => exactly ['n', 'u', 'l', 'l']
  | 't' => exactly ['t', 'r', 'u', 'e']
  | 'f' => exactly ['f', 'a', 'l', 's', 'e']
  | '"' => do
    let _ ← next
    skipQuoted
  | c =>
    if c == '-' || c.isDigit then do
      let _ ← numeral .malformed
    else fail .malformed

def closing? : Char → Option Char
  | '[' => some ']'
  | '{' => some '}'
  | _ => none

def skipKey : Reader Unit := do
  mark '"'
  skipQuoted
  mark ':'

def skipLead (close : Char) : Reader Unit :=
  if close = '}' then skipKey else pure ()

/-- The text stands where a value is due (`due`) or where one has just ended, inside groups that are
kept by their closing marks, innermost first. -/
def skipOpen (groups : List Char) (due : Bool) (s : List Char) : Except Fault (List Char) :=
  if due then
    match _hs : skipSpace s with
    | [] => .error .endOfInput
    | c :: rest =>
      match closing? c with
      | some close =>
        match _hr : skipSpace rest with
        | [] => .error .endOfInput
        | d :: rest' =>
          if d = close then skipOpen groups false rest'
          else
            match _hl : (skipLead close).run (d :: rest') with
            | .error e => .error e
            | .ok (_, rest'') => skipOpen (close :: groups) true rest''
      | none =>
        match _hv : (skipScalar c).run (c :: rest) with
        | .error e => .error e
        | .ok (_, rest') => skipOpen groups false rest'
  else
    match groups with
    | [] => .ok s
    | close :: outer =>
      match _hs : skipSpace s with
      | [] => .error .endOfInput
      | c :: rest =>
        if c = close then skipOpen outer false rest
        else if c = ',' then
          match _hl : (skipLead close).run rest with
          | .error e => .error e
          | .ok (_, rest') => skipOpen (close :: outer) true rest'
        else .error .malformed
termination_by (s.length, if due then 1 else 0)
decreasing_by
  · have h1 := length_lt_of_skipSpace _hs
    have h2 := length_lt_of_skipSpace _hr
    exact .left _ _ (by omega)
  · have h1 := length_lt_of_skipSpace _hs
    have h2 := length_lt_of_skipSpace _hr
    have h3 := (skipLead _).length_le _hl
    rw [List.length_cons] at h3
    exact .left _ _ (by omega)
  · have h1 := length_lt_of_skipSpace _hs
    have h2 := (skipScalar _).length_le _hv
    rw [List.length_cons] at h2
    rcases Nat.lt_or_ge rest'.length s.length with h | h
    · exact .left _ _ h
    · rw [show rest'.length = s.length by omega]
      exact .right _ (by simp_all)
  · exact .left _ _ (length_lt_of_skipSpace _hs)
  · have h1 := length_lt_of_skipSpace _hs
    have h2 := (skipLead _).length_le _hl
    exact .left _ _ (by omega)

theorem length_skipOpen_le {groups : List Char} {due : Bool} {s rest : List Char}
    (h : skipOpen groups due s = .ok rest) : rest.length ≤ s.length := by
  fun_induction skipOpen groups due s with
  | case3 _ _ _ _ hs _ _ hr _ ih =>
    have h1 := length_lt_of_skipSpace hs
    have h2 := length_lt_of_skipSpace hr
    have h3 := ih h
    omega
  | case5 _ _ _ _ hs _ _ _ _ hr _ _ _ hl ih =>
    have h1 := length_lt_of_skipSpace hs
    have h2 := length_lt_of_skipSpace hr
    have h3 := (skipLead _).length_le hl
    have h4 := ih h
    rw [List.length_cons] at h3
    omega
  | case7 _ _ _ _ hs _ _ _ hv ih =>
    have h1 := length_lt_of_skipSpace hs
    have h2 := (skipScalar _).length_le hv
    have h3 := ih h
    rw [List.length_cons] at h2
    omega
  | case8 =>
    cases h
    exact Nat.le_refl _
  | case10 _ _ _ _ _ _ hs ih =>
    have h1 := length_lt_of_skipSpace hs
    have h2 := ih h
    omega
  | case12 _ _ _ _ _ _ _ _ hl hs _ ih =>
    have h1 := length_lt_of_skipSpace hs
    have h2 := (skipLead _).length_le hl
    have h3 := ih h
    omega
  | case1 | case2 | case4 | case6 | case9 | case11 | case13 => cases h

def skipValue : Reader Unit where
  run s := (skipOpen [] true s).map fun rest => ((), rest)
  length_le {s a rest} h := by
    cases hq : skipOpen [] true s with
    | error e => simp [hq, Except.map] at h
    | ok r =>
      simp only [hq, Except.map, Except.ok.injEq, Prod.mk.injEq] at h
      exact h.2 ▸ length_skipOpen_le hq

end VisualProgram.Json.Reader
