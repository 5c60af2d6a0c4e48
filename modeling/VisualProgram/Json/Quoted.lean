import VisualProgram.Json.Reader

/-!
Quoted texts. Some characters may be written as escapes; one outside the basic plane is escaped as a
pair of halves. Half a pair is no character: a text with one in it cannot be read, but it can be
passed over.
-/

namespace VisualProgram.Json

def hexDigit? (c : Char) : Option Nat :=
  if '0' ≤ c ∧ c ≤ '9' then some (c.toNat - '0'.toNat)
  else if 'a' ≤ c ∧ c ≤ 'f' then some (c.toNat - 'a'.toNat + 10)
  else if 'A' ≤ c ∧ c ≤ 'F' then some (c.toNat - 'A'.toNat + 10)
  else none

def utf8Length (s : List Char) : Nat :=
  s.foldl (fun n c => n + c.utf8Size) 0

def isHighHalf (n : Nat) : Bool :=
  0xD800 ≤ n && n ≤ 0xDBFF

def isLowHalf (n : Nat) : Bool :=
  0xDC00 ≤ n && n ≤ 0xDFFF

def joinHalves (high low : Nat) : Char :=
  Char.ofNat (0x10000 + (high - 0xD800) * 0x400 + (low - 0xDC00))

namespace Reader

/-- The number written by four hexadecimal digits. A text with fewer than four bytes left ends
here. -/
def fourHex : Reader Nat where
  run
    | a :: b :: c :: d :: rest =>
      match hexDigit? a, hexDigit? b, hexDigit? c, hexDigit? d with
      | some a, some b, some c, some d => .ok (((a * 16 + b) * 16 + c) * 16 + d, rest)
      | _, _, _, _ => .error .malformed
    | s => .error (if utf8Length s < 4 then .endOfInput else .malformed)
  length_le {s n rest} h := by
    split at h
    · split at h
      · simp only [Except.ok.injEq, Prod.mk.injEq] at h
        rw [← h.2]
        simp only [List.length_cons]
        omega
      · simp at h
    · simp at h

def plainEscape? : Char → Option Char
  | '"' => some '"'
  | '\\' => some '\\'
  | '/' => some '/'
  | 'b' => some '\x08'
  | 'f' => some '\x0c'
  | 'n' => some '\n'
  | 'r' => some '\r'
  | 't' => some '\t'
  | _ => none

def escape (unicode : Reader Char) : Reader Char := do
  match ← next with
  | none => fail .endOfInput
  | some 'u' => unicode
  | some c =>
    match plainEscape? c with
    | some d => pure d
    | none => fail .malformed

def scalar : Reader Char := do
  let n ← fourHex
  if isLowHalf n then fail .malformed
  else if isHighHalf n then
    exactly ['\\', 'u']
    let low ← fourHex
    if isLowHalf low then pure (joinHalves n low) else fail .malformed
  else pure (Char.ofNat n)

/-- Any four digits; half a pair counts as the replacement character. -/
def codeUnit : Reader Char := do
  let n ← fourHex
  pure (if isLowHalf n || isHighHalf n then '\ufffd' else Char.ofNat n)

def quotedRest (esc : Reader Char) (s : List Char) : Except Fault (List Char × List Char) :=
  match s with
  | [] => .error .endOfInput
  | '"' :: rest => .ok ([], rest)
  | '\\' :: rest =>
    match _h : esc.run rest with
    | .error e => .error e
    | .ok (c, rest') => (quotedRest esc rest').map fun p => (c :: p.1, p.2)
  | c :: rest =>
    if c.toNat < 0x20 then .error .malformed
    else (quotedRest esc rest).map fun p => (c :: p.1, p.2)
termination_by s.length
decreasing_by
  · exact Nat.lt_succ_of_le (esc.length_le _h)
  · exact Nat.lt_succ_self _

theorem length_quotedRest_le {esc : Reader Char} {s cs rest : List Char}
    (h : quotedRest esc s = .ok (cs, rest)) : rest.length ≤ s.length := by
  fun_induction quotedRest esc s generalizing cs rest with
  | case1 => simp at h
  | case2 s =>
    cases h
    exact Nat.le_succ _
  | case3 => simp at h
  | case4 s c rest' he ih =>
    cases hq : quotedRest esc rest' with
    | error e => simp [hq, Except.map] at h
    | ok p =>
      simp only [hq, Except.map, Except.ok.injEq, Prod.mk.injEq] at h
      have h1 := ih hq
      have h2 := esc.length_le he
      rw [← h.2, List.length_cons]
      omega
  | case5 => simp at h
  | case6 c s _ _ _ ih =>
    cases hq : quotedRest esc s with
    | error e => simp [hq, Except.map] at h
    | ok p =>
      simp only [hq, Except.map, Except.ok.injEq, Prod.mk.injEq] at h
      have h1 := ih hq
      rw [← h.2, List.length_cons]
      omega

def quoted (unicode : Reader Char) : Reader String where
  run s := (quotedRest (escape unicode) s).map fun p => (String.ofList p.1, p.2)
  length_le {s a rest} h := by
    cases hq : quotedRest (escape unicode) s with
    | error e => simp [hq, Except.map] at h
    | ok p =>
      simp only [hq, Except.map, Except.ok.injEq, Prod.mk.injEq] at h
      rw [← h.2]
      exact length_quotedRest_le hq

def readQuoted : Reader String :=
  quoted scalar

def skipQuoted : Reader Unit := do
  let _ ← quoted codeUnit

end Reader

end VisualProgram.Json
