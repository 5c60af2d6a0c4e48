import VisualProgram.Json.Fault

namespace VisualProgram.Json

structure Reader (α : Type) where
  run : List Char → Except Fault (α × List Char)
  length_le : ∀ {s a rest}, run s = .ok (a, rest) → rest.length ≤ s.length

def isSpace (c : Char) : Bool :=
  c == ' ' || c == '\n' || c == '\t' || c == '\r'

def skipSpace (s : List Char) : List Char :=
  s.dropWhile isSpace

theorem length_skipSpace_le (s : List Char) : (skipSpace s).length ≤ s.length :=
  (List.dropWhile_sublist _).length_le

theorem length_lt_of_skipSpace {s rest : List Char} {c : Char} (h : skipSpace s = c :: rest) :
    rest.length < s.length := by
  have := length_skipSpace_le s
  rwa [h] at this

namespace Reader

variable {α β σ : Type}

protected def pure (a : α) : Reader α where
  run s := .ok (a, s)
  length_le h := by
    cases h
    exact Nat.le_refl _

protected def bind (r : Reader α) (f : α → Reader β) : Reader β where
  run s :=
    match r.run s with
    | .ok (a, rest) => (f a).run rest
    | .error e => .error e
  length_le {s b rest} h := by
    cases hr : r.run s with
    | error e => simp [hr] at h
    | ok p =>
      rw [hr] at h
      exact Nat.le_trans ((f p.1).length_le h) (r.length_le hr)

instance : Monad Reader where
  pure := Reader.pure
  bind := Reader.bind

theorem run_pure (a : α) (s : List Char) : (pure a : Reader α).run s = .ok (a, s) :=
  rfl

theorem run_bind_ok {r : Reader α} {f : α → Reader β} {s rest : List Char} {a : α}
    (h : r.run s = .ok (a, rest)) : (r >>= f).run s = (f a).run rest := by
  simp only [bind, Reader.bind, h]

theorem run_bind_error {r : Reader α} {f : α → Reader β} {s : List Char} {e : Fault}
    (h : r.run s = .error e) : (r >>= f).run s = .error e := by
  simp only [bind, Reader.bind, h]

def fail (e : Fault) : Reader α where
  run _ := .error e
  length_le h := nomatch h

def check : Except Mismatch α → Reader α
  | .ok a => pure a
  | .error m => fail (.mismatch m)

def peek : Reader (Option Char) where
  run s := .ok ((skipSpace s).head?, skipSpace s)
  length_le {s _ _} h := by
    cases h
    exact length_skipSpace_le s

def next : Reader (Option Char) where
  run
    | [] => .ok (none, [])
    | c :: s => .ok (some c, s)
  length_le {s _ _} h := by
    cases s with
    | nil =>
      cases h
      exact Nat.le_refl _
    | cons c s =>
      cases h
      exact Nat.le_succ _

def mark (c : Char) : Reader Unit := do
  match ← peek with
  | none => fail .endOfInput
  | some d =>
    if d = c then
      let _ ← next
      pure ()
    else fail .malformed

def exactly : List Char → Reader Unit
  | [] => pure ()
  | c :: cs => do
    match ← next with
    | none => fail .endOfInput
    | some d => if d = c then exactly cs else fail .malformed

def groupRest (close : Char) (item : σ → Reader σ) (a : σ) (s : List Char) :
    Except Fault (σ × List Char) :=
  match _hs : skipSpace s with
  | [] => .error .endOfInput
  | c :: rest =>
    if c = close then .ok (a, rest)
    else if c = ',' then
      match _hi : (item a).run rest with
      | .error e => .error e
      | .ok (b, rest') => groupRest close item b rest'
    else .error .malformed
termination_by s.length
decreasing_by
  have h1 := length_lt_of_skipSpace _hs
  have h2 := (item a).length_le _hi
  omega

theorem length_groupRest_le {close : Char} {item : σ → Reader σ} {a b : σ} {s rest : List Char}
    (h : groupRest close item a s = .ok (b, rest)) : rest.length ≤ s.length := by
  fun_induction groupRest close item a s with
  | case1 => simp at h
  | case2 a s rest' hs =>
    have h1 := length_lt_of_skipSpace hs
    cases h
    omega
  | case3 => simp at h
  | case4 a s rest' b' rest'' hi hs _ ih =>
    have h1 := length_lt_of_skipSpace hs
    have h2 := (item a).length_le hi
    have h3 := ih h
    omega
  | case5 => simp at h

def group (close : Char) (item : σ → Reader σ) (a : σ) : Reader σ where
  run s :=
    match skipSpace s with
    | [] => .error .endOfInput
    | c :: rest =>
      if c = close then .ok (a, rest)
      else
        match (item a).run (c :: rest) with
        | .error e => .error e
        | .ok (b, rest') => groupRest close item b rest'
  length_le {s b rest} h := by
    split at h
    · simp at h
    · next c rest' hs =>
      have h1 := length_lt_of_skipSpace hs
      split at h
      · cases h
        omega
      · split at h
        · simp at h
        · next b' rest'' hi =>
          have h2 := (item a).length_le hi
          have h3 := length_groupRest_le h
          rw [List.length_cons] at h2
          omega

def read (r : Reader α) (text : String) : Except Fault α :=
  match r.run text.toList with
  | .error e => .error e
  | .ok (a, rest) => if (skipSpace rest).isEmpty then .ok a else .error .malformed

end Reader

end VisualProgram.Json
