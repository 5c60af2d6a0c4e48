import Mathlib.Data.List.Forall2
import VisualProgram.Json.Record
import VisualProgram.Json.Value

namespace VisualProgram.Json

open Text

variable {α β σ : Type} {c close : Char} {s space space' rest text : List Char}

def isInner (c : Char) : Bool :=
  c.isDigit || c == '.' || c == 'e' || c == 'E'

/-- A numeral in front of this text ends before it. -/
def Stops (s : List Char) : Prop :=
  ∀ c ∈ s.head?, isInner c = false

def Spaces (s : List Char) : Prop :=
  ∀ c ∈ s, isSpace c = true

theorem stops_nil : Stops [] := by
  simp [Stops]

theorem stops_cons (h : isInner c = false) : Stops (c :: s) := by
  simpa [Stops] using h

theorem isInner_of_isSpace (h : isSpace c = true) : isInner c = false := by
  simp only [isSpace, Bool.or_eq_true, beq_iff_eq] at h
  rcases h with ((rfl | rfl) | rfl) | rfl <;> rfl

theorem isSpace_of_isDigit (h : c.isDigit = true) : isSpace c = false := by
  cases hspace : isSpace c with
  | false => rfl
  | true =>
    have hinner := isInner_of_isSpace hspace
    simp [isInner, h] at hinner

theorem Stops.head (h : Stops s) (hc : c ∈ s.head?) :
    c.isDigit = false ∧ (c == '.') = false ∧ (c == 'e' || c == 'E') = false := by
  have hinner := h c hc
  simp only [isInner, Bool.or_eq_false_iff] at hinner ⊢
  obtain ⟨⟨⟨hdigit, hpoint⟩, he⟩, hE⟩ := hinner
  exact ⟨hdigit, hpoint, he, hE⟩

theorem stops_append (hspace : Spaces space) (hc : isInner c = false) :
    Stops (space ++ c :: s) := by
  cases space with
  | nil => exact stops_cons hc
  | cons d ds => exact stops_cons (isInner_of_isSpace (hspace d (by simp)))

theorem Spaces.stops (h : Spaces space) : Stops space :=
  fun c hc => isInner_of_isSpace (h c (List.mem_of_mem_head? hc))

theorem spaces_nil : Spaces [] := by
  simp [Spaces]

theorem spaces_newLine (depth : Nat) : Spaces (newLine depth) := by
  intro c hc
  rcases List.mem_cons.1 hc with rfl | hc
  · rfl
  · rw [List.eq_of_mem_replicate hc]
    rfl

theorem skipSpace_append (h : Spaces space) : skipSpace (space ++ s) = skipSpace s :=
  List.dropWhile_append_of_pos h

theorem skipSpace_of_spaces (h : Spaces s) : skipSpace s = [] := by
  rw [← List.append_nil s, skipSpace_append h]
  rfl

theorem skipSpace_cons (h : isSpace c = false) : skipSpace (c :: s) = c :: s :=
  List.dropWhile_cons_of_neg (by simp [h])

theorem skipSpace_append_cons (hspace : Spaces space) (hc : isSpace c = false) :
    skipSpace (space ++ c :: s) = c :: s := by
  rw [skipSpace_append hspace, skipSpace_cons hc]

namespace Reader

theorem run_peek (hspace : Spaces space) (hc : isSpace c = false) :
    peek.run (space ++ c :: s) = .ok (some c, c :: s) := by
  simp [peek, skipSpace_append_cons hspace hc]

theorem run_mark (hspace : Spaces space) (hc : isSpace c = false) :
    (mark c).run (space ++ c :: s) = .ok ((), s) := by
  rw [mark, run_bind_ok (run_peek hspace hc)]
  simp only [if_true]
  rfl

theorem digitsValue_toDigits (n : Nat) : digitsValue (Nat.toDigits 10 n) = n :=
  calc digitsValue (Nat.toDigits 10 n)
    _ = Nat.ofDigitChars 10 (Nat.toDigits 10 n) 0 := Nat.ofDigitChars_eq_foldl.symm
    _ = n := Nat.ofDigitChars_ten_toDigits

theorem head?_toDigits {n : Nat} (h : 0 < n) : (Nat.toDigits 10 n).head? ≠ some '0' := by
  induction n using Nat.strongRecOn with
  | ind n ih =>
    rw [Nat.toDigits_eq_if (by decide)]
    split
    · rw [List.head?_singleton, ne_eq, Option.some.injEq, Nat.digitChar_eq_zero]
      omega
    · have hdiv : 0 < n / 10 := by omega
      rw [List.head?_append_of_ne_nil _ Nat.toDigits_ne_nil]
      exact ih (n / 10) (by omega) hdiv

theorem run_accept_none {p : Char → Bool} (h : ∀ c ∈ s.head?, p c = false) :
    (accept p).run s = .ok (none, s) := by
  cases s with
  | nil => rfl
  | cons c s =>
    have hc : p c = false := h c rfl
    simp [accept, hc]

theorem run_digits {ds : List Char} (hds : ∀ d ∈ ds, d.isDigit = true)
    (hrest : ∀ c ∈ rest.head?, c.isDigit = false) : digits.run (ds ++ rest) = .ok (ds, rest) := by
  have htake : rest.takeWhile Char.isDigit = [] ∧ rest.dropWhile Char.isDigit = rest := by
    cases rest with
    | nil => simp
    | cons c rest =>
      have hc : c.isDigit = false := hrest c rfl
      simp [hc]
  simp [digits, List.takeWhile_append_of_pos hds, List.dropWhile_append_of_pos hds, htake]

theorem run_someDigits (torn : Fault) {ds : List Char} (hds : ∀ d ∈ ds, d.isDigit = true)
    (hne : ds ≠ []) (hrest : ∀ c ∈ rest.head?, c.isDigit = false) :
    (someDigits torn).run (ds ++ rest) = .ok (ds, rest) := by
  rw [someDigits, run_bind_ok (run_digits hds hrest), if_neg (by simpa using hne)]
  rfl

theorem toDigits_eq_cons (n : Nat) : ∃ d ds, Nat.toDigits 10 n = d :: ds ∧ d.isDigit = true := by
  have hne : Nat.toDigits 10 n ≠ [] := Nat.toDigits_ne_nil
  obtain ⟨d, ds, h⟩ := List.exists_cons_of_ne_nil hne
  have hmem : d ∈ Nat.toDigits 10 n := by simp [h]
  exact ⟨d, ds, h, Nat.isDigit_of_mem_toDigits (by decide) (by decide) hmem⟩

theorem run_numeral (torn : Fault) (n : Nat) (hrest : Stops rest) :
    (numeral torn).run (Nat.toDigits 10 n ++ rest) =
      .ok (⟨false, Nat.toDigits 10 n, none, none⟩, rest) := by
  have hds : ∀ d ∈ Nat.toDigits 10 n, d.isDigit = true := fun d hd =>
    Nat.isDigit_of_mem_toDigits (by decide) (by decide) hd
  have hsign : ∀ c ∈ (Nat.toDigits 10 n ++ rest).head?, (c == '-') = false := by
    obtain ⟨d, ds, h, hd⟩ := toDigits_eq_cons n
    rw [h]
    rintro c ⟨⟩
    rw [beq_eq_false_iff_ne]
    rintro rfl
    exact absurd hd (by decide)
  have hzero : ¬((Nat.toDigits 10 n).head? == some '0' && (Nat.toDigits 10 n).length != 1) := by
    rcases Nat.eq_zero_or_pos n with rfl | hn
    · simp
    · simp [head?_toDigits hn]
  have hdigit : ∀ c ∈ rest.head?, c.isDigit = false := fun c hc => (hrest.head hc).1
  have hpoint : ∀ c ∈ rest.head?, (c == '.') = false := fun c hc => (hrest.head hc).2.1
  have hexponent : ∀ c ∈ rest.head?, (c == 'e' || c == 'E') = false := fun c hc =>
    (hrest.head hc).2.2
  rw [numeral, run_bind_ok (run_accept_none hsign),
    run_bind_ok (run_someDigits torn hds Nat.toDigits_ne_nil hdigit), if_neg hzero]
  dsimp only
  rw [run_bind_ok (run_accept_none hpoint)]
  dsimp only
  rw [run_bind_ok (run_pure _ _), run_bind_ok (run_accept_none hexponent)]
  rfl

theorem run_number {n : Nat} (hn : n < UInt64.size) (hrest : Stops rest) :
    number.run (Nat.toDigits 10 n ++ rest) = .ok (.natural n, rest) := by
  have hvalue : (⟨false, Nat.toDigits 10 n, none, none⟩ : Numeral).value = some (.natural n) := by
    simp [Numeral.value, digitsValue_toDigits, hn]
  rw [number, run_bind_ok (run_numeral _ n hrest), hvalue]
  rfl

theorem quotedRest_escape {esc : Reader Char} {s' : List Char} (h : esc.run s = .ok (c, s')) :
    quotedRest esc ('\\' :: s) = (quotedRest esc s').map fun p => (c :: p.1, p.2) := by
  rw [quotedRest]
  split
  · simp_all
  · simp_all

theorem quotedRest_plain {esc : Reader Char} (hquote : c ≠ '"') (hslash : c ≠ '\\')
    (hcontrol : ¬c.toNat < 0x20) :
    quotedRest esc (c :: s) = (quotedRest esc s).map fun p => (c :: p.1, p.2) := by
  rw [quotedRest]
  · rw [if_neg hcontrol]
  · exact hquote
  · exact hslash

theorem hexDigit?_digitChar {n : Nat} (h : n < 16) : hexDigit? (Nat.digitChar n) = some n := by
  have : ∀ n : Fin 16, hexDigit? (Nat.digitChar n) = some n.val := by decide
  exact this ⟨n, h⟩

theorem run_escape_control (h : c.toNat < 0x20) :
    (escape scalar).run
        ('u' :: '0' :: '0' :: Nat.digitChar (c.toNat / 16) :: Nat.digitChar (c.toNat % 16) :: s) =
      .ok (c, s) := by
  have hhex : fourHex.run
      ('0' :: '0' :: Nat.digitChar (c.toNat / 16) :: Nat.digitChar (c.toNat % 16) :: s) =
      .ok (c.toNat, s) := by
    have hzero : hexDigit? '0' = some 0 := by decide
    have hhigh := hexDigit?_digitChar (show c.toNat / 16 < 16 by omega)
    have hlow := hexDigit?_digitChar (show c.toNat % 16 < 16 by omega)
    simp only [fourHex, hzero, hhigh, hlow, Except.ok.injEq, Prod.mk.injEq, and_true]
    omega
  have hnext : next.run
      ('u' :: '0' :: '0' :: Nat.digitChar (c.toNat / 16) :: Nat.digitChar (c.toNat % 16) :: s) =
      .ok (some 'u', '0' :: '0' :: Nat.digitChar (c.toNat / 16) ::
        Nat.digitChar (c.toNat % 16) :: s) := rfl
  have hlowHalf : ¬isLowHalf c.toNat = true := by
    simp only [isLowHalf, Bool.and_eq_true, decide_eq_true_eq]
    omega
  have hhighHalf : ¬isHighHalf c.toNat = true := by
    simp only [isHighHalf, Bool.and_eq_true, decide_eq_true_eq]
    omega
  rw [escape, run_bind_ok hnext]
  change scalar.run _ = _
  rw [scalar, run_bind_ok hhex, if_neg hlowHalf, if_neg hhighHalf, Char.ofNat_toNat]
  rfl

theorem quotedRest_quoteChar (c : Char) (s : List Char) :
    quotedRest (escape scalar) (quoteChar c ++ s) =
      (quotedRest (escape scalar) s).map fun p => (c :: p.1, p.2) := by
  unfold quoteChar
  split
  · exact quotedRest_escape rfl
  · exact quotedRest_escape rfl
  · exact quotedRest_escape rfl
  · exact quotedRest_escape rfl
  · exact quotedRest_escape rfl
  · exact quotedRest_escape rfl
  · exact quotedRest_escape rfl
  · next hquote hslash _ _ _ _ _ =>
    split
    · next hcontrol => exact quotedRest_escape (run_escape_control hcontrol)
    · next hcontrol => exact quotedRest_plain hquote hslash hcontrol

theorem quotedRest_flatMap (cs rest : List Char) :
    quotedRest (escape scalar) (cs.flatMap quoteChar ++ '"' :: rest) = .ok (cs, rest) := by
  induction cs with
  | nil => rw [List.flatMap_nil, List.nil_append, quotedRest]
  | cons c cs ih =>
    rw [List.flatMap_cons, List.append_assoc, quotedRest_quoteChar, ih]
    rfl

theorem run_readQuoted (t : String) (rest : List Char) :
    readQuoted.run (t.toList.flatMap quoteChar ++ '"' :: rest) = .ok (t, rest) := by
  simp [readQuoted, quoted, quotedRest_flatMap, Except.map]

theorem run_key {f : String → Reader α} (hspace : Spaces space) (key : String) :
    (mark '"' >>= fun _ => readQuoted >>= f).run (space ++ (quoteText key ++ s)) =
      (f key).run s := by
  rw [quoteText, List.cons_append, List.cons_append, run_bind_ok (run_mark hspace rfl),
    List.append_assoc, List.singleton_append, run_bind_ok (run_readQuoted key s)]

end Reader

inductive GroupTail (close : Char) : List (List Char) → List Char → Prop where
  | close {space : List Char} (hspace : Spaces space) :
      GroupTail close [] (space ++ [close])
  | item {space space' s : List Char} {items : List (List Char)} (text : List Char)
      (hspace : Spaces space) (hspace' : Spaces space') (hs : GroupTail close items s) :
      GroupTail close (text :: items) (space ++ ',' :: (space' ++ (text ++ s)))

inductive GroupBody (close : Char) : List (List Char) → List Char → Prop where
  | nil {space : List Char} (hspace : Spaces space) :
      GroupBody close [] (space ++ [close])
  | cons {c : Char} {space s : List Char} {items : List (List Char)} (text : List Char)
      (hspace : Spaces space) (hc : isSpace c = false) (hclose : c ≠ close)
      (hs : GroupTail close items s) :
      GroupBody close ((c :: text) :: items) (space ++ (c :: text ++ s))

/-- The reader takes `a` from `text`, wherever that stands. -/
def Reads (r : Reader α) (text : List Char) (a : α) : Prop :=
  ∀ ⦃space rest⦄, Spaces space → Stops rest → r.run (space ++ (text ++ rest)) = .ok (a, rest)

inductive ReadsEach (item : σ → Reader σ) : σ → List (List Char) → σ → Prop where
  | nil {a : σ} : ReadsEach item a [] a
  | cons {a b d : σ} {text : List Char} {texts : List (List Char)} (hitem : Reads (item a) text b)
      (hitems : ReadsEach item b texts d) : ReadsEach item a (text :: texts) d

theorem ReadsEach.append {item : σ → Reader σ} {a b d : σ} {texts texts' : List (List Char)}
    (h : ReadsEach item a texts b) (h' : ReadsEach item b texts' d) :
    ReadsEach item a (texts ++ texts') d := by
  induction h with
  | nil => exact h'
  | cons hitem _ ih => exact .cons hitem (ih h')

theorem ReadsEach.foldl {item : σ → Reader σ} {step : σ → β → σ} {bs : List β}
    {texts : List (List Char)}
    (h : List.Forall₂ (fun b text => ∀ a, Reads (item a) text (step a b)) bs texts) (a : σ) :
    ReadsEach item a texts (bs.foldl step a) := by
  induction h generalizing a with
  | nil => exact .nil
  | cons hb _ ih => exact .cons (hb a) (ih (step a _))

theorem of_closing (h : close = ']' ∨ close = '}') :
    isSpace close = false ∧ isInner close = false ∧ ',' ≠ close := by
  rcases h with rfl | rfl
  · decide
  · decide

theorem GroupTail.stops {items : List (List Char)} (hclose : isInner close = false)
    (h : GroupTail close items s) : Stops (s ++ rest) := by
  cases h with
  | close hspace => simpa using stops_append hspace hclose
  | item _ hspace => simpa using stops_append hspace rfl

namespace Reader

variable {item : σ → Reader σ} {a b : σ} {items : List (List Char)}

theorem groupRest_step (hs : skipSpace s = c :: rest) :
    groupRest close item a s =
      if c = close then .ok (a, rest)
      else if c = ',' then
        match (item a).run rest with
        | .error e => .error e
        | .ok (b, rest') => groupRest close item b rest'
      else .error .malformed := by
  rw [groupRest]
  split
  · next h => simp [hs] at h
  · next h =>
    obtain ⟨rfl, rfl⟩ := List.cons_eq_cons.1 (hs.symm.trans h)
    split
    · rfl
    · split
      · split
        · next h => rw [h]
        · next h => rw [h]
      · rfl

theorem groupRest_close (hspace : Spaces space) (hclose : isSpace close = false) :
    groupRest close item a (space ++ close :: rest) = .ok (a, rest) := by
  rw [groupRest_step (skipSpace_append_cons hspace hclose), if_pos rfl]

theorem groupRest_item {s' : List Char} (hspace : Spaces space) (hclose : ',' ≠ close)
    (h : (item a).run s = .ok (b, s')) :
    groupRest close item a (space ++ ',' :: s) = groupRest close item b s' := by
  rw [groupRest_step (skipSpace_append_cons hspace rfl), if_neg hclose, if_pos rfl, h]

theorem groupRest_tail (hclose : close = ']' ∨ close = '}') (hs : GroupTail close items s)
    (h : ReadsEach item a items b) : groupRest close item a (s ++ rest) = .ok (b, rest) := by
  obtain ⟨hspaceClose, hinner, hcomma⟩ := of_closing hclose
  induction hs generalizing a with
  | close hspace =>
    cases h
    rw [List.append_assoc]
    exact groupRest_close hspace hspaceClose
  | item _ hspace hspace' hs ih =>
    obtain _ | ⟨hitem, hitems⟩ := h
    -- what is left begins with white space, a comma or the closing mark, so the item ends there
    have hstops : Stops (_ ++ rest) := hs.stops hinner
    have hnext := hitem hspace' hstops
    simp only [List.append_assoc, List.cons_append]
    rw [groupRest_item hspace hcomma hnext]
    exact ih hitems

theorem run_group_close (hspace : Spaces space) (hclose : isSpace close = false) :
    (group close item a).run (space ++ close :: rest) = .ok (a, rest) := by
  simp [group, skipSpace_append_cons hspace hclose]

theorem run_group_item {s' : List Char} (hspace : Spaces space) (hc : isSpace c = false)
    (hne : c ≠ close) (h : (item a).run (c :: s) = .ok (b, s')) :
    (group close item a).run (space ++ c :: s) = groupRest close item b s' := by
  simp [group, skipSpace_append_cons hspace hc, hne, h]

theorem run_group (hclose : close = ']' ∨ close = '}') (hs : GroupBody close items s)
    (h : ReadsEach item a items b) : (group close item a).run (s ++ rest) = .ok (b, rest) := by
  obtain ⟨hspaceClose, hinner, -⟩ := of_closing hclose
  cases hs with
  | nil hspace =>
    cases h
    rw [List.append_assoc]
    exact run_group_close hspace hspaceClose
  | cons _ hspace hc hne hs =>
    obtain _ | ⟨hitem, hitems⟩ := h
    have hstops : Stops (_ ++ rest) := hs.stops hinner
    have hfirst := hitem spaces_nil hstops
    simp only [List.nil_append, List.append_assoc, List.cons_append] at hfirst ⊢
    rw [run_group_item hspace hc hne hfirst]
    exact groupRest_tail hclose hs hitems

end Reader

def Reader.tableEntry (t : Table) : Reader Table := do
  mark '"'
  let key ← readQuoted
  mark ':'
  let value ← string
  return t.insert key value

namespace Reads

open Reader

variable {r : Reader α} {a : α} {items : List (List Char)}

theorem bind_pure (h : Reads r text a) (f : α → β) : Reads (r >>= fun x => pure (f x)) text (f a) :=
  fun _ _ hspace hrest => run_bind_ok (h hspace hrest)

theorem of_peek {f : Option Char → Reader α} (hc : isSpace c = false)
    (h : ∀ ⦃rest⦄, Stops rest → (f (some c)).run (c :: (text ++ rest)) = .ok (a, rest)) :
    Reads (peek >>= f) (c :: text) a := by
  intro space rest hspace hrest
  rw [List.cons_append, run_bind_ok (run_peek hspace hc)]
  exact h hrest

theorem natural {n : Nat} (expected : String) (hn : n < UInt64.size) :
    Reads (natural expected) (Nat.toDigits 10 n) n := by
  obtain ⟨d, ds, h, hd⟩ := toDigits_eq_cons n
  rw [h]
  apply of_peek (isSpace_of_isDigit hd)
  intro rest hrest
  have hnumber := run_number hn hrest
  rw [h, List.cons_append] at hnumber
  simp only [hd, Bool.or_true, if_true]
  rw [run_bind_ok hnumber]
  rfl

theorem string (t : String) : Reads string (quoteText t) t := by
  rw [quoteText, List.cons_append]
  apply of_peek rfl
  intro rest hrest
  rw [List.append_assoc]
  exact run_readQuoted t rest

theorem optional (h : Reads r (c :: text) a) (hc : isSpace c = false) (hn : c ≠ 'n') :
    Reads (optional r) (c :: text) (some a) := by
  apply of_peek hc
  intro rest hrest
  have hr := h.bind_pure some spaces_nil hrest
  split
  · simp_all
  · exact hr

theorem list {as : List α} (hs : GroupBody ']' items s)
    (h : ReadsEach (fun as => do return as ++ [← r]) [] items as) :
    Reads (list r) ('[' :: s) as :=
  of_peek rfl fun _ _ => run_group (.inl rfl) hs h

theorem record {ρ : Record σ α} {d : σ} (hs : GroupBody '}' items s)
    (h : ReadsEach (member ρ.fields) ρ.draft items d) (hd : ρ.ofObject d = .ok a) :
    Reads (record ρ) ('{' :: s) a := by
  apply of_peek rfl
  intro rest _
  have hgroup : (group '}' (member ρ.fields) ρ.draft).run (s ++ rest) = .ok (d, rest) :=
    run_group (.inr rfl) hs h
  change (group '}' (member ρ.fields) ρ.draft >>= fun d => check (ρ.ofObject d)).run _ = _
  rw [run_bind_ok hgroup, hd]
  rfl

theorem member {fields : List (Field σ)} {field : Field σ} {d d' : σ} {key : String}
    (hkey : fields.find? (·.name == key) = some field) (hset : field.isSet d = false)
    (hcolon : Spaces space) (hvalue : Spaces space') (h : Reads (field.read d) text d') :
    Reads (member fields d) (quoteText key ++ (space ++ ':' :: (space' ++ text))) d' := by
  intro lead rest hlead hrest
  rw [Reader.member, List.append_assoc, run_key hlead, hkey]
  simp only [hset, Bool.false_eq_true, if_false, List.append_assoc, List.cons_append]
  rw [run_bind_ok (run_mark hcolon rfl)]
  exact h hvalue hrest

theorem tableEntry (t : Table) (key value : String) (hcolon : Spaces space)
    (hvalue : Spaces space') :
    Reads (tableEntry t) (quoteText key ++ (space ++ ':' :: (space' ++ quoteText value)))
      (t.insert key value) := by
  intro lead rest hlead hrest
  rw [Reader.tableEntry, List.append_assoc, run_key hlead]
  simp only [List.append_assoc, List.cons_append]
  rw [run_bind_ok (run_mark hcolon rfl)]
  exact (string value).bind_pure (t.insert key) hvalue hrest

theorem table {t : Table} (hs : GroupBody '}' items s)
    (h : ReadsEach Reader.tableEntry .empty items t) : Reads table ('{' :: s) t :=
  of_peek rfl fun _ _ => run_group (.inr rfl) hs h

end Reads

theorem ReadsEach.items {r : Reader α} {as : List α} {texts : List (List Char)}
    (h : List.Forall₂ (fun a text => Reads r text a) as texts) :
    ReadsEach (fun as => do return as ++ [← r]) [] texts as := by
  -- the items are taken from the left, each put behind those before it
  have hconcat : as.foldl (fun bs a => bs ++ [a]) [] = as := by
    simp [List.foldl_append_eq_append, ← List.flatMap_def]
  have hitems := ReadsEach.foldl (h.imp fun _ _ ha bs => ha.bind_pure fun x => bs ++ [x]) []
  rwa [hconcat] at hitems

end VisualProgram.Json
