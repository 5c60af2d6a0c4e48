import VisualProgram.Proofs.Reading

namespace VisualProgram.Json

open Text

variable {α β σ : Type} {c d close : Char} {s space space' rest text : List Char}

def IsHexDigit (n : Nat) (c : Char) : Prop :=
  n < 16 ∧ (c = Nat.digitChar n ∨ c = (Nat.digitChar n).toUpper)

inductive FourDigits : Nat → List Char → Prop where
  | mk {k l m n : Nat} {w x y z : Char} (hw : IsHexDigit k w) (hx : IsHexDigit l x)
      (hy : IsHexDigit m y) (hz : IsHexDigit n z) :
      FourDigits (((k * 16 + l) * 16 + m) * 16 + n) [w, x, y, z]

def shortEscapes : List (Char × Char) :=
  [('"', '"'), ('\\', '\\'), ('/', '/'), ('b', '\x08'), ('f', '\x0c'), ('n', '\n'), ('r', '\r'),
    ('t', '\t')]

inductive CharText (c : Char) : List Char → Prop where
  | plain (hquote : c ≠ '"') (hslash : c ≠ '\\') (hcontrol : 0x20 ≤ c.toNat) : CharText c [c]
  | short {d : Char} (h : (d, c) ∈ shortEscapes) : CharText c ['\\', d]
  | unit {ds : List Char} (h : FourDigits c.toNat ds) : CharText c ('\\' :: 'u' :: ds)
  | pair {high low : Nat} {ds es : List Char} (hhigh : 0xD800 ≤ high ∧ high < 0xDC00)
      (hlow : 0xDC00 ≤ low ∧ low < 0xE000)
      (hc : c.toNat = 0x10000 + (high - 0xD800) * 0x400 + (low - 0xDC00))
      (hds : FourDigits high ds) (hes : FourDigits low es) :
      CharText c ('\\' :: 'u' :: (ds ++ '\\' :: 'u' :: es))

inductive QuotedText (t : String) : List Char → Prop where
  | mk {texts : List (List Char)} (h : List.Forall₂ CharText t.toList texts) :
      QuotedText t ('"' :: (texts.flatten ++ ['"']))

/-- A character or any four digits, which may be half a pair. -/
inductive PieceText : List Char → Prop where
  | char {c : Char} {s : List Char} (h : CharText c s) : PieceText s
  | half {n : Nat} {ds : List Char} (h : FourDigits n ds) : PieceText ('\\' :: 'u' :: ds)

inductive LooseText : List Char → Prop where
  | mk {texts : List (List Char)} (h : ∀ s ∈ texts, PieceText s) :
      LooseText ('"' :: (texts.flatten ++ ['"']))

theorem QuotedText.eq_cons {t : String} (h : QuotedText t text) : ∃ s, text = '"' :: s := by
  obtain ⟨-⟩ := h
  exact ⟨_, rfl⟩

theorem LooseText.eq_cons (h : LooseText text) : ∃ s, text = '"' :: s := by
  obtain ⟨-⟩ := h
  exact ⟨_, rfl⟩

namespace Reader

theorem hexDigit?_of_isHexDigit {n : Nat} (h : IsHexDigit n c) : hexDigit? c = some n := by
  have hdigits : ∀ n : Fin 16, hexDigit? (Nat.digitChar n) = some n.val ∧
      hexDigit? (Nat.digitChar n).toUpper = some n.val := by decide
  obtain ⟨hn, rfl | rfl⟩ := h
  · exact (hdigits ⟨n, hn⟩).1
  · exact (hdigits ⟨n, hn⟩).2

theorem run_fourHex {n : Nat} {ds : List Char} (h : FourDigits n ds) :
    fourHex.run (ds ++ rest) = .ok (n, rest) := by
  obtain ⟨hw, hx, hy, hz⟩ := h
  simp [fourHex, hexDigit?_of_isHexDigit hw, hexDigit?_of_isHexDigit hx, hexDigit?_of_isHexDigit hy,
    hexDigit?_of_isHexDigit hz]

theorem run_escape_short {unicode : Reader Char} (h : (d, c) ∈ shortEscapes) :
    (escape unicode).run (d :: rest) = .ok (c, rest) := by
  simp only [shortEscapes, List.mem_cons, Prod.mk.injEq, List.not_mem_nil, or_false] at h
  rcases h with h | h | h | h | h | h | h | h
  all_goals
    obtain ⟨rfl, rfl⟩ := h
    rfl

theorem not_half (c : Char) : ¬isLowHalf c.toNat = true ∧ ¬isHighHalf c.toNat = true := by
  have hvalid : c.toNat < 0xD800 ∨ 0xDFFF < c.toNat ∧ c.toNat < 0x110000 := c.valid
  simp only [isLowHalf, isHighHalf, Bool.and_eq_true, decide_eq_true_eq]
  omega

theorem run_scalar_unit {ds : List Char} (h : FourDigits c.toNat ds) :
    scalar.run (ds ++ rest) = .ok (c, rest) := by
  obtain ⟨hlow, hhigh⟩ := not_half c
  rw [scalar, run_bind_ok (run_fourHex h), if_neg hlow, if_neg hhigh, Char.ofNat_toNat]
  rfl

theorem run_exactly (cs : List Char) : (exactly cs).run (cs ++ rest) = .ok ((), rest) := by
  induction cs with
  | nil => rfl
  | cons c cs ih =>
    have hnext : next.run (c :: (cs ++ rest)) = .ok (some c, cs ++ rest) := rfl
    rw [exactly, List.cons_append, run_bind_ok hnext]
    simpa using ih

theorem run_scalar_pair {high low : Nat} {ds es : List Char} (hhigh : 0xD800 ≤ high ∧ high < 0xDC00)
    (hlow : 0xDC00 ≤ low ∧ low < 0xE000)
    (hc : c.toNat = 0x10000 + (high - 0xD800) * 0x400 + (low - 0xDC00))
    (hds : FourDigits high ds) (hes : FourDigits low es) :
    scalar.run (ds ++ '\\' :: 'u' :: (es ++ rest)) = .ok (c, rest) := by
  have hnotLow : ¬isLowHalf high = true := by
    simp only [isLowHalf, Bool.and_eq_true, decide_eq_true_eq]
    omega
  have hisHigh : isHighHalf high = true := by
    simp only [isHighHalf, Bool.and_eq_true, decide_eq_true_eq]
    omega
  have hisLow : isLowHalf low = true := by
    simp only [isLowHalf, Bool.and_eq_true, decide_eq_true_eq]
    omega
  have hjoin : joinHalves high low = c := by
    rw [joinHalves, ← hc, Char.ofNat_toNat]
  have hmarks : (exactly ['\\', 'u']).run ('\\' :: 'u' :: (es ++ rest)) = .ok ((), es ++ rest) :=
    run_exactly ['\\', 'u']
  rw [scalar, run_bind_ok (run_fourHex hds), if_neg hnotLow, if_pos hisHigh, run_bind_ok hmarks,
    run_bind_ok (run_fourHex hes), if_pos hisLow, hjoin]
  rfl

theorem quotedRest_charText (h : CharText c s) :
    quotedRest (escape scalar) (s ++ rest) =
      (quotedRest (escape scalar) rest).map fun p => (c :: p.1, p.2) := by
  cases h with
  | plain hquote hslash hcontrol => exact quotedRest_plain hquote hslash (Nat.not_lt.2 hcontrol)
  | short h => exact quotedRest_escape (run_escape_short h)
  | unit h => exact quotedRest_escape (run_scalar_unit h)
  | pair hhigh hlow hc hds hes =>
    rw [List.cons_append, List.cons_append, List.append_assoc, List.cons_append, List.cons_append]
    exact quotedRest_escape (run_scalar_pair hhigh hlow hc hds hes)

theorem quotedRest_forall₂ {cs : List Char} {texts : List (List Char)}
    (h : List.Forall₂ CharText cs texts) :
    quotedRest (escape scalar) (texts.flatten ++ '"' :: rest) = .ok (cs, rest) := by
  induction h with
  | nil => rw [List.flatten_nil, List.nil_append, quotedRest]
  | cons hc _ ih =>
    rw [List.flatten_cons, List.append_assoc, quotedRest_charText hc, ih]
    rfl

theorem run_readQuoted_of_quotedText {t : String} (h : QuotedText t ('"' :: s)) :
    readQuoted.run (s ++ rest) = .ok (t, rest) := by
  obtain ⟨htexts⟩ := h
  rw [List.append_assoc, List.singleton_append, readQuoted]
  simp [quoted, quotedRest_forall₂ htexts, Except.map]

theorem run_quotedKey {t : String} {key : List Char} {f : String → Reader α} (hspace : Spaces space)
    (h : QuotedText t key) :
    (mark '"' >>= fun _ => readQuoted >>= f).run (space ++ (key ++ s)) = (f t).run s := by
  obtain ⟨key, rfl⟩ := h.eq_cons
  rw [List.cons_append, run_bind_ok (run_mark hspace rfl),
    run_bind_ok (run_readQuoted_of_quotedText h)]

theorem reads_string {t : String} (h : QuotedText t text) : Reads string text t := by
  obtain ⟨s, rfl⟩ := h.eq_cons
  exact .of_peek rfl fun _ _ => run_readQuoted_of_quotedText h

-- Half a pair is read as one character, so a pair is read as two.
theorem quotedRest_piece (h : PieceText s) :
    ∃ cs, ∀ rest, quotedRest (escape codeUnit) (s ++ rest) =
      (quotedRest (escape codeUnit) rest).map fun p => (cs ++ p.1, p.2) := by
  have hunit {n : Nat} {ds : List Char} (hds : FourDigits n ds) : ∃ c, ∀ rest,
      quotedRest (escape codeUnit) ('\\' :: 'u' :: (ds ++ rest)) =
        (quotedRest (escape codeUnit) rest).map fun p => (c :: p.1, p.2) :=
    ⟨_, fun rest => quotedRest_escape (run_bind_ok (run_fourHex hds))⟩
  cases h with
  | half hds =>
    obtain ⟨c, hc⟩ := hunit hds
    exact ⟨[c], hc⟩
  | char h =>
    cases h with
    | plain hquote hslash hcontrol =>
      exact ⟨[_], fun rest => quotedRest_plain hquote hslash (Nat.not_lt.2 hcontrol)⟩
    | short h => exact ⟨[_], fun rest => quotedRest_escape (run_escape_short h)⟩
    | unit hds =>
      obtain ⟨c, hc⟩ := hunit hds
      exact ⟨[c], hc⟩
    | pair _ _ _ hds hes =>
      obtain ⟨high, hhigh⟩ := hunit hds
      obtain ⟨low, hlow⟩ := hunit hes
      refine ⟨[high, low], fun rest => ?_⟩
      rw [List.cons_append, List.cons_append, List.append_assoc, List.cons_append,
        List.cons_append, hhigh, hlow]
      cases quotedRest (escape codeUnit) rest <;> rfl

theorem quotedRest_pieces (rest : List Char) {texts : List (List Char)} (h : ∀ s ∈ texts, PieceText s) :
    ∃ cs, quotedRest (escape codeUnit) (texts.flatten ++ '"' :: rest) = .ok (cs, rest) := by
  induction texts with
  | nil =>
    refine ⟨[], ?_⟩
    rw [List.flatten_nil, List.nil_append, quotedRest]
  | cons s texts ih =>
    obtain ⟨cs, hcs⟩ := quotedRest_piece (h s List.mem_cons_self)
    obtain ⟨cs', hcs'⟩ := ih fun s' hs' => h s' (List.mem_cons_of_mem s hs')
    refine ⟨cs ++ cs', ?_⟩
    rw [List.flatten_cons, List.append_assoc, hcs, hcs']
    rfl

theorem run_skipQuoted (h : LooseText ('"' :: s)) : skipQuoted.run (s ++ rest) = .ok ((), rest) := by
  obtain @⟨texts, htexts⟩ := h
  obtain ⟨cs, hcs⟩ := quotedRest_pieces rest htexts
  have hquoted : (quoted codeUnit).run (texts.flatten ++ '"' :: rest) = .ok (String.ofList cs, rest) := by
    simp [quoted, hcs, Except.map]
  rw [List.append_assoc, List.singleton_append, skipQuoted, run_bind_ok hquoted]
  rfl

end Reader

def Digits (ds : List Char) : Prop :=
  ds ≠ [] ∧ ∀ d ∈ ds, d.isDigit = true

-- There are ten digits, so what is said of them can be decided.
theorem Digits.head {ds : List Char} {p : Char → Bool} (h : Digits ds) (rest : List Char)
    (hp : ∀ n : Fin 10, p (Char.ofNat (48 + n)) = false) : ∀ c ∈ (ds ++ rest).head?, p c = false := by
  intro c hc
  rw [List.head?_append_of_ne_nil _ h.1] at hc
  have hdigit : c.isDigit = true := h.2 c (List.mem_of_mem_head? hc)
  simp only [Char.isDigit, Bool.and_eq_true, decide_eq_true_eq, ge_iff_le] at hdigit
  have hlow : 48 ≤ c.toNat := hdigit.1
  have hhigh : c.toNat ≤ 57 := hdigit.2
  have hc : c = Char.ofNat (48 + (c.toNat - 48)) := by
    rw [Nat.add_sub_cancel' hlow, Char.ofNat_toNat]
  rw [hc]
  exact hp ⟨c.toNat - 48, by omega⟩

inductive FractionText : List Char → Prop where
  | none : FractionText []
  | some {ds : List Char} (hds : Digits ds) : FractionText ('.' :: ds)

inductive ExponentText : List Char → Prop where
  | none : ExponentText []
  | some {e : Char} {sign ds : List Char} (he : e = 'e' ∨ e = 'E')
      (hsign : sign = [] ∨ sign = ['+'] ∨ sign = ['-']) (hds : Digits ds) :
      ExponentText (e :: (sign ++ ds))

inductive NumeralText : List Char → Prop where
  | mk {sign whole fraction exponent : List Char} (hsign : sign = [] ∨ sign = ['-'])
      (hwhole : Digits whole) (hzero : whole.head? = some '0' → whole = ['0'])
      (hfraction : FractionText fraction) (hexponent : ExponentText exponent) :
      NumeralText (sign ++ (whole ++ (fraction ++ exponent)))

theorem NumeralText.eq_cons (h : NumeralText text) :
    ∃ c s, text = c :: s ∧ (c = '-' ∨ c.isDigit = true) := by
  obtain @⟨sign, whole, fraction, exponent, hsign, hwhole, -⟩ := h
  obtain ⟨d, ds, rfl⟩ := List.exists_cons_of_ne_nil hwhole.1
  rcases hsign with rfl | rfl
  · exact ⟨d, _, rfl, .inr (hwhole.2 d List.mem_cons_self)⟩
  · exact ⟨'-', _, rfl, .inl rfl⟩

theorem ExponentText.head {exponent : List Char} (h : ExponentText exponent) (hrest : Stops rest) :
    ∀ c ∈ (exponent ++ rest).head?, c.isDigit = false ∧ (c == '.') = false := by
  cases h with
  | none => exact fun c hc => ⟨(hrest.head hc).1, (hrest.head hc).2.1⟩
  | some he =>
    rintro c ⟨⟩
    rcases he with rfl | rfl <;> decide

theorem FractionText.head {fraction exponent : List Char} (h : FractionText fraction)
    (hexponent : ExponentText exponent) (hrest : Stops rest) :
    ∀ c ∈ (fraction ++ (exponent ++ rest)).head?, c.isDigit = false := by
  cases h with
  | none => exact fun c hc => (hexponent.head hrest c hc).1
  | some =>
    rintro c ⟨⟩
    decide

namespace Reader

def Ends (r : Reader α) (s rest : List Char) : Prop :=
  ∃ a, r.run s = .ok (a, rest)

theorem Ends.bind {r : Reader α} {f : α → Reader β} {a : α} {s' : List Char}
    (h : r.run s = .ok (a, s')) (hf : Ends (f a) s' rest) : Ends (r >>= f) s rest := by
  obtain ⟨b, hb⟩ := hf
  exact ⟨b, (run_bind_ok h).trans hb⟩

theorem run_accept_some {p : Char → Bool} (h : p c = true) :
    (accept p).run (c :: s) = .ok (some c, s) := by
  simp [accept, h]

theorem exists_run_accept {p : Char → Bool} {sign : List Char}
    (hsign : sign = [] ∨ ∃ c, p c = true ∧ sign = [c]) (hs : ∀ c ∈ s.head?, p c = false) :
    ∃ a, (accept p).run (sign ++ s) = .ok (a, s) := by
  rcases hsign with rfl | ⟨c, hc, rfl⟩
  · exact ⟨none, run_accept_none hs⟩
  · exact ⟨some c, run_accept_some hc⟩

theorem ends_exponent {torn : Fault} {exponent : List Char} {f : Option Int → α}
    (h : ExponentText exponent) (hrest : Stops rest) :
    Ends
      (do
        match ← accept fun c => c == 'e' || c == 'E' with
        | none => do
          let n ← pure none
          pure (f n)
        | some _ => do
          let down ← accept fun c => c == '+' || c == '-'
          let size ← someDigits torn
          let n ← pure (some (if down == some '-' then -(digitsValue size : Int)
            else (digitsValue size : Int)))
          pure (f n))
      (exponent ++ rest) rest := by
  cases h with
  | none =>
    have hletter := run_accept_none (p := fun c => c == 'e' || c == 'E') fun c hc => (hrest.head hc).2.2
    exact .bind hletter (.bind (run_pure _ _) ⟨_, rfl⟩)
  | @some e sign ds he hsign hds =>
    have hplus : sign = [] ∨ ∃ c, (c == '+' || c == '-') = true ∧ sign = [c] := by
      rcases hsign with rfl | rfl | rfl
      · exact .inl rfl
      · exact .inr ⟨'+', rfl, rfl⟩
      · exact .inr ⟨'-', rfl, rfl⟩
    obtain ⟨down, hdown⟩ := exists_run_accept hplus (hds.head rest (by decide))
    have hletter := run_accept_some (p := fun c => c == 'e' || c == 'E') (c := e)
      (s := sign ++ (ds ++ rest)) (by simpa using he)
    have hsize := run_someDigits torn hds.2 hds.1 fun c hc => (hrest.head hc).1
    rw [List.cons_append, List.append_assoc]
    exact .bind hletter (.bind hdown (.bind hsize (.bind (run_pure _ _) ⟨_, rfl⟩)))

theorem ends_numeral (torn : Fault) (h : NumeralText s) (hrest : Stops rest) :
    Ends (numeral torn) (s ++ rest) rest := by
  obtain @⟨sign, whole, fraction, exponent, hsign, hwhole, hzero, hfraction, hexponent⟩ := h
  have hlead : ¬(whole.head? == some '0' && whole.length != 1) = true := by
    by_cases hhead : whole.head? = some '0'
    · simp [hzero hhead]
    · simp [hhead]
  obtain ⟨minus, hminus⟩ := exists_run_accept (p := (· == '-'))
    (hsign.imp_right fun h => ⟨'-', rfl, h⟩)
    (hwhole.head (fraction ++ (exponent ++ rest)) (by decide))
  have hdigits := run_someDigits torn hwhole.2 hwhole.1 (hfraction.head hexponent hrest)
  simp only [List.append_assoc]
  rw [numeral]
  refine .bind hminus (.bind hdigits ?_)
  rw [if_neg hlead]
  dsimp only
  cases hfraction with
  | none =>
    have hpoint := run_accept_none (p := (· == '.')) fun c hc => (hexponent.head hrest c hc).2
    refine .bind hpoint (.bind (run_pure _ _) ?_)
    exact ends_exponent hexponent hrest
  | @some ds hds =>
    have hpoint := run_accept_some (p := (· == '.')) (c := '.') (s := ds ++ (exponent ++ rest)) rfl
    have hplaces := run_someDigits torn hds.2 hds.1 fun c hc => (hexponent.head hrest c hc).1
    refine .bind hpoint (.bind (run_bind_ok hplaces) ?_)
    exact ends_exponent hexponent hrest

end Reader

mutual

inductive ValueText : List Char → Prop where
  | null : ValueText ['n', 'u', 'l', 'l']
  | true : ValueText ['t', 'r', 'u', 'e']
  | false : ValueText ['f', 'a', 'l', 's', 'e']
  | numeral {s : List Char} (h : NumeralText s) : ValueText s
  | string {s : List Char} (h : LooseText s) : ValueText s
  | array {items : List (List Char)} {s : List Char} (hs : GroupBody ']' items s)
      (h : ∀ t ∈ items, ValueText t) : ValueText ('[' :: s)
  | object {members : List (List Char)} {s : List Char} (hs : GroupBody '}' members s)
      (h : ∀ t ∈ members, MemberText t) : ValueText ('{' :: s)

inductive MemberText : List Char → Prop where
  | mk {key space space' s : List Char} (hkey : LooseText key) (hspace : Spaces space)
      (hspace' : Spaces space') (h : ValueText s) :
      MemberText (key ++ (space ++ ':' :: (space' ++ s)))

end

namespace Reader

variable {groups : List Char}

theorem skipOpen_scalar (hspace : Spaces space) (hc : isSpace c = false) (hclosing : closing? c = none)
    (h : (skipScalar c).run (c :: s) = .ok ((), rest)) :
    skipOpen groups true (space ++ c :: s) = skipOpen groups false rest := by
  have hskip : skipSpace (space ++ c :: s) = c :: s := skipSpace_append_cons hspace hc
  rw [skipOpen.eq_def, if_pos rfl]
  split
  · next hs => simp [hskip] at hs
  · next hs =>
    obtain ⟨rfl, rfl⟩ := List.cons_eq_cons.1 (hskip.symm.trans hs)
    split
    · next hclose => simp [hclosing] at hclose
    · split
      · next he => simp [h] at he
      · next he =>
        rw [h] at he
        cases he
        rfl

theorem skipOpen_open {rest' : List Char} (hs : skipSpace s = c :: rest)
    (hclosing : closing? c = some close) (hrest : skipSpace rest = d :: rest') :
    skipOpen groups true s =
      if d = close then skipOpen groups false rest'
      else
        match (skipLead close).run (d :: rest') with
        | .error e => .error e
        | .ok (_, rest'') => skipOpen (close :: groups) true rest'' := by
  conv_lhs => rw [skipOpen.eq_def, if_pos rfl]
  split
  · next h => simp [hs] at h
  · next h =>
    obtain ⟨rfl, rfl⟩ := List.cons_eq_cons.1 (hs.symm.trans h)
    split
    · next h =>
      cases hclosing.symm.trans h
      split
      · next h => simp [hrest] at h
      · next h =>
        obtain ⟨rfl, rfl⟩ := List.cons_eq_cons.1 (hrest.symm.trans h)
        split
        · rfl
        · split
          · next h => rw [h]
          · next h => rw [h]
    · next h => simp [hclosing] at h

theorem skipOpen_ended (hs : skipSpace s = c :: rest) :
    skipOpen (close :: groups) false s =
      if c = close then skipOpen groups false rest
      else if c = ',' then
        match (skipLead close).run rest with
        | .error e => .error e
        | .ok (_, rest') => skipOpen (close :: groups) true rest'
      else .error .malformed := by
  conv_lhs => rw [skipOpen, if_neg Bool.false_ne_true]
  split
  · next h => simp [hs] at h
  · next h =>
    obtain ⟨rfl, rfl⟩ := List.cons_eq_cons.1 (hs.symm.trans h)
    split
    · rfl
    · split
      · split
        · next h => rw [h]
        · next h => rw [h]
      · rfl

theorem skipOpen_empty (hspace : Spaces space) (hc : isSpace c = false)
    (hclosing : closing? c = some close) (hspace' : Spaces space')
    (hclose : isSpace close = false) :
    skipOpen groups true (space ++ c :: (space' ++ close :: rest)) =
      skipOpen groups false rest := by
  rw [skipOpen_open (skipSpace_append_cons hspace hc) hclosing
    (skipSpace_append_cons hspace' hclose), if_pos rfl]

theorem skipOpen_first (hspace : Spaces space) (hc : isSpace c = false)
    (hclosing : closing? c = some close) (hspace' : Spaces space') (hd : isSpace d = false)
    (hne : d ≠ close) (h : (skipLead close).run (d :: s) = .ok ((), rest)) :
    skipOpen groups true (space ++ c :: (space' ++ d :: s)) =
      skipOpen (close :: groups) true rest := by
  rw [skipOpen_open (skipSpace_append_cons hspace hc) hclosing (skipSpace_append_cons hspace' hd),
    if_neg hne, h]

theorem skipOpen_close (hspace : Spaces space) (hclose : isSpace close = false) :
    skipOpen (close :: groups) false (space ++ close :: rest) = skipOpen groups false rest := by
  rw [skipOpen_ended (skipSpace_append_cons hspace hclose), if_pos rfl]

theorem skipOpen_comma (hspace : Spaces space) (hne : ',' ≠ close)
    (h : (skipLead close).run s = .ok ((), rest)) :
    skipOpen (close :: groups) false (space ++ ',' :: s) = skipOpen (close :: groups) true rest := by
  rw [skipOpen_ended (skipSpace_append_cons hspace rfl), if_neg hne, if_pos rfl, h]

def Skips (text : List Char) : Prop :=
  ∀ groups ⦃space rest⦄, Spaces space → Stops rest →
    skipOpen groups true (space ++ (text ++ rest)) = skipOpen groups false rest

def SkipsItem (close : Char) (text : List Char) : Prop :=
  ∀ groups ⦃space rest⦄, Spaces space → Stops rest →
    ∃ s, (skipLead close).run (space ++ (text ++ rest)) = .ok ((), s) ∧
      skipOpen (close :: groups) true s = skipOpen (close :: groups) false rest

theorem of_closing? (h : closing? c = some close) :
    isSpace c = false ∧ (close = ']' ∨ close = '}') := by
  unfold closing? at h
  split at h
  · cases h
    exact ⟨rfl, .inl rfl⟩
  · cases h
    exact ⟨rfl, .inr rfl⟩
  · cases h

theorem skipOpen_tail {items : List (List Char)} (hclose : close = ']' ∨ close = '}')
    (hs : GroupTail close items s) (h : ∀ t ∈ items, SkipsItem close t) :
    skipOpen (close :: groups) false (s ++ rest) = skipOpen groups false rest := by
  obtain ⟨hspaceClose, hinner, hcomma⟩ := of_closing hclose
  induction hs with
  | close hspace =>
    rw [List.append_assoc]
    exact skipOpen_close hspace hspaceClose
  | item t hspace hspace' hs ih =>
    have hstops : Stops (_ ++ rest) := hs.stops hinner
    obtain ⟨s', hlead, hvalue⟩ := h t List.mem_cons_self groups hspace' hstops
    simp only [List.append_assoc, List.cons_append]
    rw [skipOpen_comma hspace hcomma hlead, hvalue]
    exact ih fun t' ht' => h t' (List.mem_cons_of_mem t ht')

theorem skips_group {items : List (List Char)} (hclosing : closing? c = some close)
    (hs : GroupBody close items s) (h : ∀ t ∈ items, SkipsItem close t) : Skips (c :: s) := by
  intro groups space rest hspace _
  obtain ⟨hc, hclose⟩ := of_closing? hclosing
  obtain ⟨hspaceClose, hinner, -⟩ := of_closing hclose
  rw [List.cons_append]
  cases hs with
  | nil hspace' =>
    rw [List.append_assoc]
    exact skipOpen_empty hspace hc hclosing hspace' hspaceClose
  | @cons d _ _ _ t hspace' hd hne hs =>
    have hstops : Stops (_ ++ rest) := hs.stops hinner
    obtain ⟨s', hlead, hvalue⟩ := h _ List.mem_cons_self groups spaces_nil hstops
    simp only [List.nil_append, List.append_assoc, List.cons_append] at hlead ⊢
    rw [skipOpen_first hspace hc hclosing hspace' hd hne hlead, hvalue]
    exact skipOpen_tail hclose hs fun t' ht' => h t' (List.mem_cons_of_mem _ ht')

theorem skips_scalar (hc : isSpace c = false) (hclosing : closing? c = none)
    (h : ∀ ⦃rest⦄, Stops rest → (skipScalar c).run (c :: (s ++ rest)) = .ok ((), rest)) :
    Skips (c :: s) :=
  fun _ _ _ hspace hrest => skipOpen_scalar hspace hc hclosing (h hrest)

theorem skips_string (h : LooseText text) : Skips text := by
  obtain ⟨s, rfl⟩ := h.eq_cons
  exact skips_scalar rfl rfl fun rest _ => run_skipQuoted h

theorem skipScalar_numeral (hc : c = '-' ∨ c.isDigit = true) :
    isSpace c = false ∧ closing? c = none ∧ skipScalar c = (do let _ ← numeral .malformed) := by
  have hspace : isSpace c = false := by
    rcases hc with rfl | hc
    · rfl
    · exact isSpace_of_isDigit hc
  refine ⟨hspace, ?_, ?_⟩
  · unfold closing?
    split <;> simp_all
  · unfold skipScalar
    split <;> simp_all

theorem skips_numeral (h : NumeralText text) : Skips text := by
  obtain ⟨c, s, rfl, hc⟩ := h.eq_cons
  obtain ⟨hspace, hclosing, hskip⟩ := skipScalar_numeral hc
  refine skips_scalar hspace hclosing fun rest hrest => ?_
  obtain ⟨n, hn⟩ := ends_numeral .malformed h hrest
  rw [hskip]
  exact run_bind_ok hn

theorem Skips.item (h : Skips text) : SkipsItem ']' text :=
  fun _ _ _ hspace hrest => ⟨_, rfl, h _ hspace hrest⟩

theorem Skips.member {key : List Char} (h : Skips text) (hkey : LooseText key)
    (hspace : Spaces space) (hspace' : Spaces space') :
    SkipsItem '}' (key ++ (space ++ ':' :: (space' ++ text))) := by
  intro groups lead rest hlead hrest
  refine ⟨space' ++ (text ++ rest), ?_, h _ hspace' hrest⟩
  obtain ⟨s, rfl⟩ := hkey.eq_cons
  change skipKey.run _ = _
  simp only [List.append_assoc, List.cons_append]
  rw [skipKey, run_bind_ok (run_mark hlead rfl), run_bind_ok (run_skipQuoted hkey),
    run_mark hspace rfl]

end Reader

open Reader

mutual

theorem ValueText.skips {text : List Char} : ValueText text → Skips text
  | .null => skips_scalar rfl rfl fun _ _ => run_exactly ['n', 'u', 'l', 'l']
  | .true => skips_scalar rfl rfl fun _ _ => run_exactly ['t', 'r', 'u', 'e']
  | .false => skips_scalar rfl rfl fun _ _ => run_exactly ['f', 'a', 'l', 's', 'e']
  | .numeral h => skips_numeral h
  | .string h => skips_string h
  | .array hs h => skips_group rfl hs fun t ht => (h t ht).skips.item
  | .object hs h => skips_group rfl hs fun t ht => (h t ht).skips

theorem MemberText.skips {text : List Char} : MemberText text → SkipsItem '}' text
  | .mk hkey hspace hspace' h => h.skips.member hkey hspace hspace'

end

theorem reads_skipValue (h : ValueText text) : Reads skipValue text () := by
  intro space rest hspace hrest
  have hskip := h.skips [] hspace hrest
  have hend : skipOpen [] false rest = .ok rest := by
    rw [skipOpen, if_neg Bool.false_ne_true]
  simp [skipValue, hskip, hend, Except.map]

end VisualProgram.Json
