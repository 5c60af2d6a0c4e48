import VisualProgram.Proofs.RoundTrip

/-!
Documents of which only the front is left. Every text but a numeral ends with a mark of its own, so
no part of it is taken for the whole; what a part of a numeral says is lost with the mark that is
missing behind it.
-/

namespace VisualProgram

open Json Reader

namespace Json

variable {α β σ : Type} {r : Reader α} {a : α} {c close : Char}
  {p s t space space' text rest : List Char}

def Cut (p s : List Char) : Prop :=
  p <+: s ∧ p ≠ s

theorem Cut.cons_cases (h : Cut p (c :: s)) : p = [] ∨ ∃ u, Cut u s ∧ p = c :: u := by
  obtain ⟨hp, hne⟩ := h
  rcases List.prefix_cons_iff.1 hp with hnil | ⟨u, rfl, hu⟩
  · exact .inl hnil
  · exact .inr ⟨u, ⟨hu, fun hus => hne (hus ▸ rfl)⟩, rfl⟩

theorem Cut.eq_nil (h : Cut p [c]) : p = [] := by
  rcases h.cons_cases with hnil | ⟨u, ⟨hu, hne⟩, -⟩
  · exact hnil
  · exact absurd (List.prefix_nil.1 hu) hne

theorem prefix_append_cases (h : p <+: s ++ t) : p <+: s ∨ ∃ u, u <+: t ∧ p = s ++ u := by
  obtain ⟨q, hq⟩ := h
  rcases List.append_eq_append_iff.1 hq with ⟨u, hs, -⟩ | ⟨u, hp, ht⟩
  · exact .inl ⟨u, hs.symm⟩
  · exact .inr ⟨u, ⟨q, ht.symm⟩, hp⟩

theorem Cut.append_cases (h : Cut p (s ++ t)) : p <+: s ∨ ∃ u, Cut u t ∧ p = s ++ u := by
  obtain ⟨hp, hne⟩ := h
  refine (prefix_append_cases hp).imp_right ?_
  rintro ⟨u, hu, rfl⟩
  exact ⟨u, ⟨hu, fun hut => hne (hut ▸ rfl)⟩, rfl⟩

theorem Cut.nil (h : s ≠ []) : Cut [] s :=
  ⟨List.nil_prefix, h.symm⟩

theorem Spaces.of_prefix (h : Spaces space) (hp : p <+: space) : Spaces p :=
  fun c hc => h c (hp.subset hc)

theorem Stops.of_prefix (h : Stops s) (hp : p <+: s) : Stops p := by
  obtain ⟨q, rfl⟩ := hp
  cases p with
  | nil => exact stops_nil
  | cons c p => exact h

def Torn (result : Except Fault (α × List Char)) : Prop :=
  result = .error .endOfInput ∨ ∃ a, result = .ok (a, [])

/-- All that can be read of a cut text leaves nothing behind. -/
def Tears (r : Reader α) (text : List Char) : Prop :=
  ∀ ⦃space p⦄, Spaces space → Cut p text → Torn (r.run (space ++ p))

/-- Nothing can be read of a cut text. -/
def Breaks (r : Reader α) (text : List Char) : Prop :=
  ∀ ⦃space p⦄, Spaces space → Cut p text → r.run (space ++ p) = .error .endOfInput

theorem Breaks.tears (h : Breaks r text) : Tears r text :=
  fun _ _ hspace hp => .inl (h hspace hp)

theorem Tears.bind_pure (h : Tears r text) (f : α → β) :
    Tears (r >>= fun a => pure (f a)) text := by
  intro space p hspace hp
  rcases h hspace hp with hend | ⟨a, ha⟩
  · exact .inl (run_bind_error hend)
  · exact .inr ⟨f a, run_bind_ok ha⟩

theorem Tears.run (h : Tears r text) (hreads : Reads r text a) (hspace : Spaces space)
    (hp : p <+: text) : Torn (r.run (space ++ p)) := by
  by_cases hne : p = text
  · subst hne
    have hrun := hreads hspace stops_nil
    rw [List.append_nil] at hrun
    exact .inr ⟨a, hrun⟩
  · exact h hspace ⟨hp, hne⟩

namespace Reader

theorem run_peek_spaces (h : Spaces space) : peek.run space = .ok (none, []) := by
  simp [peek, skipSpace_of_spaces h]

theorem run_mark_spaces (h : Spaces space) : (mark c).run space = .error .endOfInput := by
  rw [mark, run_bind_ok (run_peek_spaces h)]
  rfl

end Reader

theorem Breaks.of_peek {f : Option Char → Reader α} (hc : isSpace c = false)
    (hnone : (f none).run [] = .error .endOfInput)
    (h : ∀ p, Cut p text → (f (some c)).run (c :: p) = .error .endOfInput) :
    Breaks (peek >>= f) (c :: text) := by
  intro space p hspace hp
  rcases hp.cons_cases with rfl | ⟨u, hu, rfl⟩
  · rw [List.append_nil, run_bind_ok (run_peek_spaces hspace)]
    exact hnone
  · rw [run_bind_ok (run_peek hspace hc)]
    exact h u hu

-- A numeral loses its last digit when the number is divided by ten.
theorem prefix_toDigits {n : Nat} (h : p <+: Nat.toDigits 10 n) :
    p = [] ∨ ∃ m ≤ n, p = Nat.toDigits 10 m := by
  induction n using Nat.strongRecOn with
  | ind n ih =>
    by_cases hall : p = Nat.toDigits 10 n
    · exact .inr ⟨n, Nat.le_refl n, hall⟩
    have hcut : Cut p (Nat.toDigits 10 n) := ⟨h, hall⟩
    rw [Nat.toDigits_eq_if (by decide)] at hcut
    split at hcut
    · exact .inl hcut.eq_nil
    · have hpart := (List.prefix_concat_iff.1 hcut.1).resolve_left hcut.2
      rcases ih (n / 10) (by omega) hpart with hnil | ⟨m, hm, hdigits⟩
      · exact .inl hnil
      · exact .inr ⟨m, by omega, hdigits⟩

theorem Tears.natural {n : Nat} (expected : String) (hn : n < UInt64.size) :
    Tears (natural expected) (Nat.toDigits 10 n) := by
  intro space p hspace hp
  rcases prefix_toDigits hp.1 with rfl | ⟨m, hm, rfl⟩
  · rw [List.append_nil, Reader.natural, run_bind_ok (run_peek_spaces hspace)]
    exact .inl rfl
  · have hreads := Reads.natural expected (Nat.lt_of_le_of_lt hm hn) hspace stops_nil
    rw [List.append_nil] at hreads
    exact .inr ⟨m, hreads⟩

theorem quotedRest_escape_error {esc : Reader Char} {e : Fault} (h : esc.run s = .error e) :
    quotedRest esc ('\\' :: s) = .error e := by
  rw [quotedRest]
  split
  · simp_all
  · simp_all

theorem run_fourHex_cut (hlength : s.length < 4) (hsize : ∀ c ∈ s, c.utf8Size = 1) :
    fourHex.run s = .error .endOfInput := by
  match s with
  | [] => rfl
  | [x] => simp [fourHex, utf8Length, hsize x]
  | [x, y] => simp [fourHex, utf8Length, hsize x, hsize y]
  | [x, y, z] => simp [fourHex, utf8Length, hsize x, hsize y, hsize z]
  | _ :: _ :: _ :: _ :: _ =>
    simp only [List.length_cons] at hlength
    omega

theorem utf8Size_digitChar {n : Nat} (h : n < 16) : (Nat.digitChar n).utf8Size = 1 := by
  have : ∀ n : Fin 16, (Nat.digitChar n).utf8Size = 1 := by decide
  exact this ⟨n, h⟩

theorem run_escape_short_cut (hp : Cut p [c]) : (escape scalar).run p = .error .endOfInput := by
  rw [hp.eq_nil]
  rfl

theorem run_escape_control_cut (hcontrol : c.toNat < 0x20)
    (hp : Cut p ['u', '0', '0', Nat.digitChar (c.toNat / 16), Nat.digitChar (c.toNat % 16)]) :
    (escape scalar).run p = .error .endOfInput := by
  rcases hp.cons_cases with rfl | ⟨u, ⟨hu, hne⟩, rfl⟩
  · rfl
  -- fewer than four digits are left, and each of them is one byte
  have hlength : u.length < 4 := Nat.lt_of_le_of_ne hu.length_le fun h => hne (hu.eq_of_length h)
  have hsize : ∀ d ∈ u, d.utf8Size = 1 := by
    intro d hd
    have hmem := hu.subset hd
    simp only [List.mem_cons, List.not_mem_nil, or_false] at hmem
    rcases hmem with rfl | rfl | rfl | rfl
    · rfl
    · rfl
    · exact utf8Size_digitChar (by omega)
    · exact utf8Size_digitChar (by omega)
  change scalar.run u = _
  exact run_bind_error (run_fourHex_cut hlength hsize)

theorem quotedRest_nil {esc : Reader Char} : quotedRest esc [] = .error .endOfInput := by
  rw [quotedRest]

theorem quotedRest_cut_escape (hp : Cut p ('\\' :: s))
    (h : ∀ u, Cut u s → (escape scalar).run u = .error .endOfInput) :
    quotedRest (escape scalar) p = .error .endOfInput := by
  rcases hp.cons_cases with rfl | ⟨u, hu, rfl⟩
  · exact quotedRest_nil
  · exact quotedRest_escape_error (h u hu)

theorem quotedRest_cut_quoteChar (hp : Cut p (quoteChar c)) :
    quotedRest (escape scalar) p = .error .endOfInput := by
  unfold quoteChar at hp
  split at hp
  iterate 7 exact quotedRest_cut_escape hp fun u => run_escape_short_cut
  next =>
    split at hp
    · next hcontrol => exact quotedRest_cut_escape hp fun u => run_escape_control_cut hcontrol
    · rw [hp.eq_nil]
      exact quotedRest_nil

theorem quotedRest_cut {cs : List Char} (hp : p <+: cs.flatMap quoteChar) :
    quotedRest (escape scalar) p = .error .endOfInput := by
  induction cs generalizing p with
  | nil =>
    rw [List.prefix_nil.1 hp]
    exact quotedRest_nil
  | cons c cs ih =>
    rw [List.flatMap_cons] at hp
    have hrest {u : List Char} (hu : u <+: cs.flatMap quoteChar) :
        quotedRest (escape scalar) (quoteChar c ++ u) = .error .endOfInput := by
      rw [quotedRest_quoteChar, ih hu]
      rfl
    rcases prefix_append_cases hp with hc | ⟨u, hu, rfl⟩
    · by_cases hne : p = quoteChar c
      · rw [hne, ← List.append_nil (quoteChar c)]
        exact hrest List.nil_prefix
      · exact quotedRest_cut_quoteChar ⟨hc, hne⟩
    · exact hrest hu

theorem run_readQuoted_cut {t : String} (hp : Cut p (t.toList.flatMap quoteChar ++ ['"'])) :
    readQuoted.run p = .error .endOfInput := by
  have hpart := (List.prefix_concat_iff.1 hp.1).resolve_left hp.2
  simp [readQuoted, quoted, quotedRest_cut hpart, Except.map]

theorem Breaks.string (t : String) : Breaks string (quoteText t) :=
  .of_peek rfl rfl fun _ => run_readQuoted_cut

theorem run_key_cut {f : String → Reader α} {key : String} (hspace : Spaces space)
    (hp : Cut p (quoteText key)) :
    (mark '"' >>= fun _ => readQuoted >>= f).run (space ++ p) = .error .endOfInput := by
  rcases hp.cons_cases with rfl | ⟨u, hu, rfl⟩
  · rw [List.append_nil]
    exact run_bind_error (run_mark_spaces hspace)
  · rw [run_bind_ok (run_mark hspace rfl)]
    exact run_bind_error (run_readQuoted_cut hu)

theorem Tears.keyed {f : String → Reader α} {key : String}
    (hf : f key = mark ':' >>= fun _ => r) (h : Tears r text) (htext : text ≠ [])
    (hcolon : Spaces space) (hvalue : Spaces space') :
    Tears (mark '"' >>= fun _ => readQuoted >>= f)
      (quoteText key ++ (space ++ ':' :: (space' ++ text))) := by
  intro lead p hlead hp
  rcases hp.append_cases with hkey | ⟨u, hu, rfl⟩
  · by_cases hall : p = quoteText key
    -- the key is whole, and its colon is missing
    · rw [hall, ← List.append_nil (quoteText key), run_key hlead, hf]
      exact .inl (run_bind_error (run_mark_spaces spaces_nil))
    · exact .inl (run_key_cut hlead ⟨hkey, hall⟩)
  · rw [run_key hlead, hf]
    rcases hu.append_cases with hspace | ⟨v, hv, rfl⟩
    · exact .inl (run_bind_error (run_mark_spaces (hcolon.of_prefix hspace)))
    rcases hv.cons_cases with rfl | ⟨w, hw, rfl⟩
    · rw [List.append_nil]
      exact .inl (run_bind_error (run_mark_spaces hcolon))
    rw [run_bind_ok (run_mark hcolon rfl)]
    rcases hw.append_cases with hspace | ⟨x, hx, rfl⟩
    · have hnothing := h (hvalue.of_prefix hspace) (.nil htext)
      rwa [List.append_nil] at hnothing
    · exact h hvalue hx

namespace Reader

variable {item : σ → Reader σ} {a b : σ} {items : List (List Char)}

theorem groupRest_spaces (h : Spaces s) : groupRest close item a s = .error .endOfInput := by
  rw [groupRest]
  split
  · rfl
  · next hs => simp [skipSpace_of_spaces h] at hs

theorem groupRest_item_error {e : Fault} (hspace : Spaces space) (hclose : ',' ≠ close)
    (h : (item a).run s = .error e) :
    groupRest close item a (space ++ ',' :: s) = .error e := by
  rw [groupRest_step (skipSpace_append_cons hspace rfl), if_neg hclose, if_pos rfl, h]

theorem groupRest_torn (hspace : Spaces space) (hclose : ',' ≠ close) (h : Torn ((item a).run s)) :
    groupRest close item a (space ++ ',' :: s) = .error .endOfInput := by
  rcases h with h | ⟨b, h⟩
  · exact groupRest_item_error hspace hclose h
  · rw [groupRest_item hspace hclose h]
    exact groupRest_spaces spaces_nil

theorem run_group_spaces (h : Spaces s) : (group close item a).run s = .error .endOfInput := by
  simp [group, skipSpace_of_spaces h]

theorem run_group_torn (hspace : Spaces space) (hc : isSpace c = false) (hne : c ≠ close)
    (h : Torn ((item a).run (c :: s))) :
    (group close item a).run (space ++ c :: s) = .error .endOfInput := by
  rcases h with h | ⟨b, h⟩
  · simp [group, skipSpace_append_cons hspace hc, hne, h]
  · rw [run_group_item hspace hc hne h]
    exact groupRest_spaces spaces_nil

-- The cut is in front of the item or in it, or the item is whole and the cut is behind it.
theorem cut_item (hreads : Reads (item a) text b) (htears : Tears (item a) text)
    (hspace : Spaces space) (hs : Stops s) (hp : Cut p (space ++ (text ++ s))) :
    Torn ((item a).run p) ∨ ∃ u, Cut u s ∧ (item a).run p = .ok (b, u) := by
  rcases hp.append_cases with hfront | ⟨u, hu, rfl⟩
  · have hnothing := htears.run hreads (hspace.of_prefix hfront) List.nil_prefix
    rw [List.append_nil] at hnothing
    exact .inl hnothing
  rcases hu.append_cases with htext | ⟨v, hv, rfl⟩
  · exact .inl (htears.run hreads hspace htext)
  · exact .inr ⟨v, hv, hreads hspace (hs.of_prefix hv.1)⟩

theorem groupRest_cut (hclose : close = ']' ∨ close = '}') (hs : GroupTail close items s)
    (h : ReadsEach item a items b)
    (htears : ∀ t ∈ items, ∀ d d', Reads (item d) t d' → Tears (item d) t) (hp : Cut p s) :
    groupRest close item a p = .error .endOfInput := by
  obtain ⟨-, hinner, hcomma⟩ := of_closing hclose
  -- whole items are read as they were, up to the first that the cut has reached
  induction hs generalizing a p with
  | close hspace =>
    have hpart := (List.prefix_concat_iff.1 hp.1).resolve_left hp.2
    exact groupRest_spaces (hspace.of_prefix hpart)
  | @item _ _ s' _ t hspace hspace' hs ih =>
    obtain _ | ⟨hitem, hitems⟩ := h
    have hstops : Stops (s' ++ []) := hs.stops hinner
    rw [List.append_nil] at hstops
    rcases hp.append_cases with hfront | ⟨u, hu, rfl⟩
    · exact groupRest_spaces (hspace.of_prefix hfront)
    rcases hu.cons_cases with rfl | ⟨v, hv, rfl⟩
    · rw [List.append_nil]
      exact groupRest_spaces hspace
    have htorn := htears t List.mem_cons_self _ _ hitem
    rcases cut_item hitem htorn hspace' hstops hv with hend | ⟨w, hw, hrun⟩
    · exact groupRest_torn hspace hcomma hend
    · rw [groupRest_item hspace hcomma hrun]
      exact ih hitems (fun t' ht' => htears t' (List.mem_cons_of_mem t ht')) hw

theorem run_group_cut (hclose : close = ']' ∨ close = '}') (hs : GroupBody close items s)
    (h : ReadsEach item a items b)
    (htears : ∀ t ∈ items, ∀ d d', Reads (item d) t d' → Tears (item d) t) (hp : Cut p s) :
    (group close item a).run p = .error .endOfInput := by
  obtain ⟨-, hinner, -⟩ := of_closing hclose
  cases hs with
  | nil hspace =>
    have hpart := (List.prefix_concat_iff.1 hp.1).resolve_left hp.2
    exact run_group_spaces (hspace.of_prefix hpart)
  | @cons c _ s' _ t hspace hc hne hs =>
    obtain _ | ⟨hitem, hitems⟩ := h
    have hstops : Stops (s' ++ []) := hs.stops hinner
    rw [List.append_nil] at hstops
    rcases hp.append_cases with hfront | ⟨u, hu, rfl⟩
    · exact run_group_spaces (hspace.of_prefix hfront)
    have hitemCut := cut_item hitem (htears _ List.mem_cons_self _ _ hitem) spaces_nil hstops hu
    rcases hu.cons_cases with rfl | ⟨v, hv, rfl⟩
    · rw [List.append_nil]
      exact run_group_spaces hspace
    rcases hitemCut with hend | ⟨w, hw, hrun⟩
    · exact run_group_torn hspace hc hne hend
    · rw [run_group_item hspace hc hne hrun]
      exact groupRest_cut hclose hs hitems (fun t' ht' => htears t' (List.mem_cons_of_mem _ ht')) hw

end Reader

theorem Tears.optional (h : Tears r (c :: text)) (hc : isSpace c = false) (hn : c ≠ 'n') :
    Tears (optional r) (c :: text) := by
  intro space p hspace hp
  have hsome := h.bind_pure some spaces_nil hp
  rcases hp.cons_cases with rfl | ⟨u, -, rfl⟩
  · rw [List.append_nil, Reader.optional, run_bind_ok (run_peek_spaces hspace)]
    exact hsome
  · rw [Reader.optional, run_bind_ok (run_peek hspace hc)]
    split
    · simp_all
    · exact hsome

theorem Breaks.list {items : List (List Char)} {as : List α} (hs : GroupBody ']' items s)
    (h : ReadsEach (fun as => do return as ++ [← r]) [] items as) (htears : ∀ t ∈ items, Tears r t) :
    Breaks (list r) ('[' :: s) :=
  .of_peek rfl rfl fun _ =>
    run_group_cut (.inl rfl) hs h fun t ht as _ _ => (htears t ht).bind_pure fun a => as ++ [a]

theorem Breaks.table {items : List (List Char)} {t : Table} (hs : GroupBody '}' items s)
    (h : ReadsEach tableEntry .empty items t) (htears : ∀ text ∈ items, ∀ u, Tears (tableEntry u) text) :
    Breaks table ('{' :: s) :=
  .of_peek rfl rfl fun _ => run_group_cut (.inr rfl) hs h fun text ht u _ _ => htears text ht u

theorem Breaks.record {ρ : Record σ α} {items : List (List Char)} {d : σ}
    (hs : GroupBody '}' items s) (h : ReadsEach (member ρ.fields) ρ.draft items d)
    (htears : ∀ t ∈ items, ∀ d d', Reads (member ρ.fields d) t d' → Tears (member ρ.fields d) t) :
    Breaks (record ρ) ('{' :: s) := by
  refine .of_peek rfl rfl fun p hp => ?_
  have hgroup := run_group_cut (.inr rfl) hs h htears hp
  change (group '}' (member ρ.fields) ρ.draft >>= fun d => check (ρ.ofObject d)).run p = _
  exact run_bind_error hgroup

theorem isSet_of_reads {fields : List (Field σ)} {field : Field σ} {d d' : σ} {key : String}
    (hfield : fields.find? (·.name == key) = some field)
    (h : Reads (member fields d) (quoteText key ++ text) d') : field.isSet d = false := by
  have hrun := h spaces_nil stops_nil
  rw [member, List.append_assoc, run_key spaces_nil, hfield] at hrun
  cases hset : field.isSet d with
  | false => rfl
  | true =>
    simp only [hset, if_true] at hrun
    cases hrun

theorem Tears.member {fields : List (Field σ)} {field : Field σ} {d d' : σ} {key : String}
    (hfield : fields.find? (·.name == key) = some field) (h : ∀ d, Tears (field.read d) text)
    (htext : text ≠ []) (hcolon : Spaces space) (hvalue : Spaces space')
    (hreads : Reads (member fields d) (quoteText key ++ (space ++ ':' :: (space' ++ text))) d') :
    Tears (member fields d) (quoteText key ++ (space ++ ':' :: (space' ++ text))) := by
  have hset := isSet_of_reads hfield hreads
  refine .keyed ?_ (h d) htext hcolon hvalue
  simp only [hfield, hset, Bool.false_eq_true, if_false]

def TearsValue (r : Reader α) (v : Value) : Prop :=
  ∀ depth, Tears r (v.layout depth)

def BreaksValue (r : Reader α) (v : Value) : Prop :=
  ∀ depth, Breaks r (v.layout depth)

theorem BreaksValue.tears {v : Value} (h : BreaksValue r v) : TearsValue r v :=
  fun depth => (h depth).tears

theorem Value.layout_ne_nil (depth : Nat) (v : Value) : v.layout depth ≠ [] := by
  obtain ⟨c, s, hv, -⟩ := v.layout_eq_cons depth
  exact hv ▸ List.cons_ne_nil c s

namespace TearsValue

theorem natural {n : Nat} (expected : String) (hn : n < UInt64.size) :
    TearsValue (Reader.natural expected) (.number n) :=
  fun _ => .natural expected hn

theorem string (t : String) : TearsValue Reader.string (.string t) :=
  fun _ => (Breaks.string t).tears

theorem bind_pure {v : Value} (h : TearsValue r v) (f : α → β) :
    TearsValue (r >>= fun a => pure (f a)) v :=
  fun depth => (h depth).bind_pure f

theorem optional {v : Value} (h : TearsValue r v) : TearsValue (Reader.optional r) v := by
  intro depth
  obtain ⟨c, s, hv, hc⟩ := v.layout_eq_cons depth
  obtain ⟨hspace, -, hn⟩ := of_opensValue hc
  have hr := h depth
  rw [hv] at hr ⊢
  exact hr.optional hspace hn

theorem list {write : α → Value} {as : List α} (hreads : ∀ a ∈ as, ReadsValue r (write a) a)
    (h : ∀ a ∈ as, TearsValue r (write a)) : TearsValue (Reader.list r) (.array (as.map write)) := by
  intro depth
  obtain ⟨s, hs, hbody⟩ := Value.layout_array depth (as.map write)
  rw [hs]
  have htears : ∀ t ∈ (as.map write).map (Value.layout (depth + 1)), Tears r t := by
    simp only [List.forall_mem_map]
    exact fun a ha => h a ha (depth + 1)
  exact (Breaks.list hbody (ReadsValue.items hreads (depth + 1)) htears).tears

theorem table (t : Table) : TearsValue Reader.table t.toJson := by
  intro depth
  obtain ⟨s, hs, hbody⟩ := Value.layout_object depth (t.entries.map fun e => (e.1, .string e.2))
  rw [Table.toJson, hs]
  refine (Breaks.table hbody (ReadsValue.entries t (depth + 1)) ?_).tears
  simp only [List.forall_mem_map]
  intro e _ u
  have hvalue := (TearsValue.string e.2).bind_pure (u.insert e.1) (depth + 1)
  exact .keyed rfl hvalue (Value.layout_ne_nil _ _) spaces_nil spaces_singleton

end TearsValue

def TearsMember (fields : List (Field σ)) (m : String × Value) : Prop :=
  ∃ field, fields.find? (·.name == m.1) = some field ∧ ∀ d, TearsValue (field.read d) m.2

namespace TearsMember

variable {fields : List (Field σ)} {key : String}

theorem of {get : σ → Option β} {set : σ → β → σ} {value : Reader β} {v : Value}
    (hkey : fields.find? (·.name == key) = some (.of key get set value)) (h : TearsValue value v) :
    TearsMember fields (key, v) :=
  ⟨_, hkey, fun d => h.bind_pure (set d)⟩

end TearsMember

theorem BreaksValue.record {ρ : Record σ α} {ms : List (String × Value)} {d : σ}
    (h : ReadsMembers ρ.fields ρ.draft ms d) (htears : ∀ m ∈ ms, TearsMember ρ.fields m) :
    BreaksValue (Reader.record ρ) (.object ms) := by
  intro depth
  obtain ⟨s, hs, hbody⟩ := Value.layout_object depth ms
  rw [hs]
  refine .record hbody (h (depth + 1)) ?_
  simp only [List.forall_mem_map]
  intro m hm d d' hreads
  obtain ⟨field, hfield, hvalue⟩ := htears m hm
  exact .member hfield (fun d => hvalue d (depth + 1)) (Value.layout_ne_nil _ _) spaces_nil
    spaces_singleton hreads

end Json

theorem BlockId.tears (id : BlockId) : TearsValue reader id.toJson :=
  (TearsValue.natural "u64" id.toNat_lt).bind_pure ofNat

theorem Socket.breaks (s : Socket) : BreaksValue (Reader.record record) s.toJson := by
  refine .record s.readsMembers ?_
  simp only [List.forall_mem_append, List.forall_mem_cons]
  refine ⟨⟨.of rfl (.string s.name), .of rfl (.string s.kind), nofun⟩, ?_⟩
  exact forall_mem_optionalMember fun id _ => .of rfl id.tears.optional

theorem Block.breaks (b : Block) : BreaksValue (Reader.record record) b.toJson := by
  refine .record b.readsMembers ?_
  simp only [List.forall_mem_append, List.forall_mem_cons]
  refine ⟨⟨⟨⟨⟨⟨.of rfl b.id.tears, .of rfl (.string b.genus), nofun⟩, ?_⟩, ?_⟩, ?_⟩, ?_⟩, ?_⟩
  · exact forall_mem_optionalMember fun label _ => .of rfl (TearsValue.string label).optional
  · exact forall_mem_memberUnless (.of rfl (.table b.properties))
  · exact forall_mem_memberUnless (.of rfl (.list (fun s _ => s.reads) fun s _ => s.breaks.tears))
  · exact forall_mem_optionalMember fun plug _ => .of rfl plug.breaks.tears.optional
  · exact forall_mem_optionalMember fun next _ => .of rfl next.tears.optional

namespace BlockGraph

theorem breaks (g : BlockGraph) : BreaksValue (Reader.record blocksRecord) g.toJson := by
  refine .record (readsMembers g.blocks) (List.forall_mem_singleton.2 ?_)
  exact .of rfl (.list (fun b _ => b.reads) fun b _ => b.breaks.tears)

theorem ofDocument_torn {g : BlockGraph} {p : String} (hp : p.toList <+: g.document.toList)
    (hne : p ≠ g.document) :
    ofDocument p = .error (.json .endOfInput) ∧
      Arena.ofDocument p = .error (.json .endOfInput) := by
  have htext : g.document.toList = g.toJson.layout 0 := String.toList_ofList
  have hcut : Cut p.toList (g.toJson.layout 0) := by
    rw [← htext]
    exact ⟨hp, fun h => hne (String.toList_inj.1 h)⟩
  have hrun : (Reader.record blocksRecord).run p.toList = .error .endOfInput :=
    g.breaks 0 spaces_nil hcut
  have hgraph : ofDocument p = .error (.json .endOfInput) := by
    simp only [ofDocument, hrun]
  refine ⟨hgraph, ?_⟩
  rw [ofDocument_arena, hgraph]
  rfl

def twelve : BlockGraph where
  blocks := [{ Block.ofGenus "wait" with id := .ofNat 12 }]
  named := by decide
  distinct := by decide

def torn : String :=
  "\x7b\n  \"blocks\": [\n    \x7b\n      \"id\": 1"

theorem ofDocument_torn_twelve :
    ofDocument torn = .error (.json .endOfInput) ∧
      Arena.ofDocument torn = .error (.json .endOfInput) := by
  have hfront : torn.toList <+: twelve.document.toList := by decide
  have hne : torn ≠ twelve.document := by decide
  exact ofDocument_torn hfront hne

end BlockGraph

end VisualProgram
