import VisualProgram.Proofs.Grammar
import VisualProgram.Proofs.RoundTrip

namespace VisualProgram

open Json Reader

namespace Json

variable {α β σ : Type} {r : Reader α} {a : α} {space space' s text : List Char}

inductive KeyedText (name : String) (value : List Char) : List Char → Prop where
  | mk {key space space' : List Char} (hkey : QuotedText name key) (hspace : Spaces space)
      (hspace' : Spaces space') : KeyedText name value (key ++ (space ++ ':' :: (space' ++ value)))

structure FieldText where
  name : String
  spells : List Char → Prop
  omissible : Prop

inductive MembersText (fields : List FieldText) : List String → List (List Char) → Prop where
  | nil : MembersText fields [] []
  | known {f : FieldText} {value text : List Char} {names : List String}
      {texts : List (List Char)} (hf : f ∈ fields) (hvalue : f.spells value)
      (htext : KeyedText f.name value text) (hnew : f.name ∉ names)
      (h : MembersText fields names texts) : MembersText fields (f.name :: names) (text :: texts)
  | unknown {key : String} {value text : List Char} {names : List String}
      {texts : List (List Char)} (hkey : ∀ f ∈ fields, f.name ≠ key) (hvalue : ValueText value)
      (htext : KeyedText key value text) (h : MembersText fields names texts) :
      MembersText fields names (text :: texts)

inductive ObjectText (fields : List FieldText) : List Char → Prop where
  | mk {names : List String} {texts : List (List Char)} {s : List Char}
      (h : MembersText fields names texts) (hgiven : ∀ f ∈ fields, f.name ∈ names ∨ f.omissible)
      (hs : GroupBody '}' texts s) : ObjectText fields ('{' :: s)

-- what is read of the field where the object gives `names`
def given (name : String) (b : β) (names : List String) : Option β :=
  if name ∈ names then some b else none

section given

variable {name key : String} {b : β} {names : List String}

@[simp]
theorem given_nil : given name b [] = none :=
  if_neg List.not_mem_nil

theorem given_of_notMem (h : name ∉ names) : given name b names = none :=
  if_neg h

@[simp]
theorem given_concat_self : given name b (names ++ [name]) = some b :=
  if_pos (by simp)

theorem given_concat_of_ne (h : name ≠ key) : given name b (names ++ [key]) = given name b names := by
  simp [given, h]

theorem getD_given {default : β} (h : name ∈ names ∨ b = default) :
    (given name b names).getD default = b := by
  unfold given
  split
  · rfl
  · next hname => exact (h.resolve_left hname).symm

end given

def Takes (fields : List (Field σ)) (draft : List String → σ) (f : FieldText) : Prop :=
  ∀ names, f.name ∉ names → ∃ field, fields.find? (·.name == f.name) = some field ∧
    field.isSet (draft names) = false ∧
      ∀ text, f.spells text → Reads (field.read (draft names)) text (draft (names ++ [f.name]))

theorem takes_of {fields : List (Field σ)} {draft : List String → σ} {name : String}
    {get : σ → Option β} {set : σ → β → σ} {value : Reader β} {b : β} {spells : List Char → Prop}
    {omissible : Prop} (hkey : fields.find? (·.name == name) = some (.of name get set value))
    (hget : ∀ names, get (draft names) = given name b names)
    (hset : ∀ names, set (draft names) b = draft (names ++ [name]))
    (h : ∀ text, spells text → Reads value text b) :
    Takes fields draft ⟨name, spells, omissible⟩ := by
  intro names hname
  refine ⟨_, hkey, ?_, fun text htext => ?_⟩
  · simp [Field.of, hget, given_of_notMem hname]
  · rw [← hset]
    exact (h text htext).bind_pure _

theorem KeyedText.reads {fields : List (Field σ)} {field : Field σ} {d d' : σ} {key : String}
    {value : List Char} (h : KeyedText key value text)
    (hfield : fields.find? (·.name == key) = some field) (hset : field.isSet d = false)
    (hvalue : Reads (field.read d) value d') : Reads (Reader.member fields d) text d' := by
  obtain ⟨hkey, hspace, hspace'⟩ := h
  intro lead rest hlead hrest
  rw [Reader.member, List.append_assoc, run_quotedKey hlead hkey, hfield]
  simp only [hset, Bool.false_eq_true, if_false, List.append_assoc, List.cons_append]
  rw [run_bind_ok (run_mark hspace rfl)]
  exact hvalue hspace' hrest

theorem KeyedText.reads_unknown {fields : List (Field σ)} {d : σ} {key : String}
    {value : List Char} (h : KeyedText key value text)
    (hfield : fields.find? (·.name == key) = none) (hvalue : ValueText value) :
    Reads (Reader.member fields d) text d := by
  obtain ⟨hkey, hspace, hspace'⟩ := h
  intro lead rest hlead hrest
  rw [Reader.member, List.append_assoc, run_quotedKey hlead hkey, hfield]
  simp only [List.append_assoc, List.cons_append]
  rw [run_bind_ok (run_mark hspace rfl), run_bind_ok (reads_skipValue hvalue hspace' hrest)]
  rfl

theorem MembersText.reads {fields : List (Field σ)} {texts : List FieldText}
    {draft : List String → σ} {names : List String} {members : List (List Char)}
    (h : MembersText texts names members)
    (hnames : fields.map Field.name = texts.map FieldText.name)
    (htakes : ∀ f ∈ texts, Takes fields draft f) {before : List String}
    (hbefore : ∀ name ∈ names, name ∉ before) :
    ReadsEach (Reader.member fields) (draft before) members (draft (before ++ names)) := by
  -- only fields change the draft, and none of them has been given before
  induction h generalizing before with
  | nil =>
    rw [List.append_nil]
    exact .nil
  | @known f value text names members hf hvalue htext hnew h ih =>
    obtain ⟨field, hfield, hset, hread⟩ := htakes f hf before (hbefore f.name List.mem_cons_self)
    rw [List.append_cons]
    refine .cons (htext.reads hfield hset (hread value hvalue)) (ih fun name hname => ?_)
    rw [List.mem_append, List.mem_singleton]
    rintro (hmem | rfl)
    · exact hbefore name (List.mem_cons_of_mem _ hname) hmem
    · exact hnew hname
  | @unknown key _ _ _ _ hkey hvalue htext h ih =>
    have hfield : fields.find? (·.name == key) = none := by
      rw [List.find?_eq_none]
      intro field hmem
      have hname : field.name ∈ texts.map FieldText.name := hnames ▸ List.mem_map_of_mem hmem
      obtain ⟨f, hf, hfieldName⟩ := List.mem_map.1 hname
      simpa [← hfieldName] using hkey f hf
    exact .cons (htext.reads_unknown hfield hvalue) (ih hbefore)

/-- `draft` is what the record keeps of an object in which the given names are told. -/
structure Keeps (ρ : Record σ α) (texts : List FieldText) (draft : List String → σ) (a : α) :
    Prop where
  start : draft [] = ρ.draft
  names : ρ.fields.map Field.name = texts.map FieldText.name
  takes : ∀ f ∈ texts, Takes ρ.fields draft f
  finish : ∀ names, (∀ f ∈ texts, f.name ∈ names ∨ f.omissible) → ρ.ofObject (draft names) = .ok a

theorem ObjectText.reads {ρ : Record σ α} {texts : List FieldText} {draft : List String → σ}
    (h : ObjectText texts text) (hkeeps : Keeps ρ texts draft a) :
    Reads (Reader.record ρ) text a := by
  obtain ⟨hmembers, hgiven, hs⟩ := h
  have hreads := hmembers.reads hkeeps.names hkeeps.takes fun _ _ => List.not_mem_nil
  rw [hkeeps.start] at hreads
  exact .record hs hreads (hkeeps.finish _ hgiven)

inductive OptionText (spells : β → List Char → Prop) : Option β → List Char → Prop where
  | none : OptionText spells none ['n', 'u', 'l', 'l']
  | some {b : β} {text : List Char} (h : spells b text) : OptionText spells (some b) text

inductive ListText (spells : β → List Char → Prop) (bs : List β) : List Char → Prop where
  | mk {items : List (List Char)} {s : List Char} (hitems : List.Forall₂ spells bs items)
      (hs : GroupBody ']' items s) : ListText spells bs ('[' :: s)

theorem charText_quoteChar (c : Char) : CharText c (quoteChar c) := by
  unfold quoteChar
  split
  iterate 7 exact .short (by decide)
  next hquote hslash _ _ _ _ _ =>
    split
    · next hcontrol =>
      have hvalue : ((0 * 16 + 0) * 16 + c.toNat / 16) * 16 + c.toNat % 16 = c.toNat := by omega
      have hzero : IsHexDigit 0 '0' := ⟨by decide, .inl rfl⟩
      have hdigits := FourDigits.mk hzero hzero ⟨show c.toNat / 16 < 16 by omega, .inl rfl⟩
        ⟨show c.toNat % 16 < 16 by omega, .inl rfl⟩
      rw [hvalue] at hdigits
      exact .unit hdigits
    · next hcontrol => exact .plain hquote hslash (Nat.not_lt.1 hcontrol)

theorem quotedText_quoteText (t : String) : QuotedText t (quoteText t) := by
  have hchars : List.Forall₂ CharText t.toList (t.toList.map quoteChar) :=
    List.forall₂_map_right_iff.2 (List.forall₂_same.2 fun c _ => charText_quoteChar c)
  exact .mk hchars

theorem QuotedText.opens {t : String} (h : QuotedText t text) :
    ∃ c s, text = c :: s ∧ opensValue c = true := by
  obtain ⟨s, rfl⟩ := h.eq_cons
  exact ⟨'"', s, rfl, rfl⟩

theorem ObjectText.opens {texts : List FieldText} (h : ObjectText texts text) :
    ∃ c s, text = c :: s ∧ opensValue c = true := by
  obtain ⟨-, -, -⟩ := h
  exact ⟨'{', _, rfl, rfl⟩

variable {spells : β → List Char → Prop} {value : Reader β}

theorem OptionText.reads {o : Option β} (ho : OptionText spells o text)
    (h : ∀ b text, spells b text → Reads value text b)
    (hopens : ∀ b text, spells b text → ∃ c s, text = c :: s ∧ opensValue c = true) :
    Reads (Reader.optional value) text o := by
  cases ho with
  | none => exact .of_peek rfl fun _ _ => run_bind_ok (run_exactly ['n', 'u', 'l', 'l'])
  | some hb =>
    obtain ⟨c, s, rfl, hc⟩ := hopens _ _ hb
    obtain ⟨hspace, -, hn⟩ := of_opensValue hc
    exact (h _ _ hb).optional hspace hn

theorem ListText.reads {bs : List β} (hbs : ListText spells bs text)
    (h : ∀ b text, spells b text → Reads value text b) : Reads (Reader.list value) text bs := by
  obtain ⟨hitems, hs⟩ := hbs
  exact .list hs (.items (hitems.imp h))

def Spells (fields : List FieldText) (depth : Nat) (m : String × Value) : Prop :=
  ∃ f ∈ fields, f.name = m.1 ∧ f.spells (m.2.layout depth)

section Spells

variable {α : Type} {fields : List FieldText} {ms : List (String × Value)} {depth : Nat}
  {name : String} {write : α → Value} {o : Option α} {v : Value} {omitted : Bool}

theorem Spells.nth (i : Nat) {f : FieldText} {m : String × Value} (hf : fields[i]? = some f)
    (hname : f.name = m.1) (h : f.spells (m.2.layout depth)) : Spells fields depth m :=
  ⟨f, List.mem_of_getElem? hf, hname, h⟩

theorem MembersText.layout (h : ∀ m ∈ ms, Spells fields depth m)
    (hnodup : (ms.map Prod.fst).Nodup) :
    MembersText fields (ms.map Prod.fst) (ms.map (memberText depth)) := by
  induction ms with
  | nil => exact .nil
  | cons m ms ih =>
    obtain ⟨key, v⟩ := m
    obtain ⟨f, hf, rfl, hvalue⟩ := h _ List.mem_cons_self
    obtain ⟨hnew, hnodup⟩ := List.nodup_cons.1 hnodup
    have htext : KeyedText f.name (v.layout depth) (memberText depth (f.name, v)) :=
      .mk (quotedText_quoteText f.name) spaces_nil spaces_singleton
    exact .known hf hvalue htext hnew (ih (fun m hm => h m (List.mem_cons_of_mem _ hm)) hnodup)

theorem ObjectText.layout (h : ∀ m ∈ ms, Spells fields (depth + 1) m)
    (hnodup : (ms.map Prod.fst).Nodup)
    (hgiven : ∀ f ∈ fields, f.name ∈ ms.map Prod.fst ∨ f.omissible) :
    ObjectText fields ((Value.object ms).layout depth) := by
  obtain ⟨s, hs, hbody⟩ := Value.layout_object depth ms
  rw [hs]
  exact .mk (.layout h hnodup) hgiven hbody

theorem ListText.layout {spells : α → List Char → Prop} {as : List α}
    (h : ∀ a ∈ as, spells a ((write a).layout (depth + 1))) :
    ListText spells as ((Value.array (as.map write)).layout depth) := by
  obtain ⟨s, hs, hbody⟩ := Value.layout_array depth (as.map write)
  rw [hs]
  refine .mk ?_ hbody
  rw [List.map_map]
  exact List.forall₂_map_right_iff.2 (List.forall₂_same.2 h)

theorem names_optionalMember :
    (optionalMember name write o).map Prod.fst = if o = none then [] else [name] := by
  cases o <;> rfl

theorem names_memberUnless :
    (if omitted then [] else [(name, v)]).map Prod.fst = if omitted then [] else [name] := by
  cases omitted <;> rfl

theorem sublist_unless {p : Prop} [Decidable p] : (if p then [] else [name]).Sublist [name] := by
  split
  · exact List.nil_sublist _
  · exact .refl _

end Spells

end Json

namespace Table

theorem perm_setEntry {key value : String} {es : List (String × String)}
    (h : ∀ e ∈ es, e.1 ≠ key) : (setEntry key value es).Perm ((key, value) :: es) := by
  induction es with
  | nil => exact .refl _
  | cons e es ih =>
    have hkey : e.1 ≠ key := h e List.mem_cons_self
    rw [setEntry]
    split
    · exact .refl _
    · next hlt =>
      have hgt : e.1 < key := by
        by_contra hgt
        exact hkey (Sorted.eq_of_not_lt hgt hlt)
      rw [if_pos hgt]
      have htail := ih fun e' he' => h e' (List.mem_cons_of_mem e he')
      exact (htail.cons e).trans (.swap _ _ _)

theorem perm_foldl_insert (t : Table) {es : List (String × String)}
    (h : ((es ++ t.entries).map Prod.fst).Nodup) :
    (es.foldl (fun u e => u.insert e.1 e.2) t).entries.Perm (es ++ t.entries) := by
  induction es generalizing t with
  | nil => exact .refl _
  | cons e es ih =>
    have hkeys := (List.nodup_cons.1 h).1
    have hfresh : ∀ e' ∈ t.entries, e'.1 ≠ e.1 := fun e' he' hkey =>
      hkeys (hkey ▸ List.mem_map_of_mem (List.mem_append_right es he'))
    have hinsert : (t.insert e.1 e.2).entries.Perm (e :: t.entries) := perm_setEntry hfresh
    have hmiddle : (es ++ (t.insert e.1 e.2).entries).Perm (e :: es ++ t.entries) :=
      (hinsert.append_left es).trans List.perm_middle
    have hnodup : ((es ++ (t.insert e.1 e.2).entries).map Prod.fst).Nodup :=
      (hmiddle.map Prod.fst).nodup_iff.2 h
    exact (ih _ hnodup).trans hmiddle

theorem nodup_keys (t : Table) : (t.entries.map Prod.fst).Nodup :=
  List.pairwise_map.2 (t.sorted.imp fun h => String.ne_of_lt h)

theorem foldl_insert_of_perm {t : Table} {es : List (String × String)} (h : es.Perm t.entries) :
    es.foldl (fun u e => u.insert e.1 e.2) empty = t := by
  have hnodup : ((es ++ empty.entries).map Prod.fst).Nodup := by
    simpa [empty] using (h.map Prod.fst).nodup_iff.2 t.nodup_keys
  have hperm := (perm_foldl_insert empty hnodup).trans ((List.append_nil es).symm ▸ h)
  -- both tables are in the order of their keys
  refine ext (List.Perm.eq_of_pairwise (fun a b _ _ hab hba => ?_) (Table.sorted _) t.sorted hperm)
  exact absurd hba (String.lt_asymm hab)

inductive EntryText (e : String × String) : List Char → Prop where
  | mk {value text : List Char} (hvalue : QuotedText e.2 value) (htext : KeyedText e.1 value text) :
      EntryText e text

theorem EntryText.reads {e : String × String} {text : List Char} (u : Table)
    (h : EntryText e text) : Reads (tableEntry u) text (u.insert e.1 e.2) := by
  obtain ⟨hvalue, hkey, hspace, hspace'⟩ := h
  intro lead rest hlead hrest
  rw [tableEntry, List.append_assoc, run_quotedKey hlead hkey]
  simp only [List.append_assoc, List.cons_append]
  rw [run_bind_ok (run_mark hspace rfl)]
  exact (reads_string hvalue).bind_pure (u.insert e.1) hspace' hrest

inductive Spelling (t : Table) : List Char → Prop where
  | mk {es : List (String × String)} {texts : List (List Char)} {s : List Char}
      (hes : es.Perm t.entries) (htexts : List.Forall₂ EntryText es texts)
      (hs : GroupBody '}' texts s) : Spelling t ('{' :: s)

theorem Spelling.reads {t : Table} {text : List Char} (h : t.Spelling text) :
    Reads Reader.table text t := by
  obtain ⟨hes, htexts, hs⟩ := h
  have hreads := ReadsEach.foldl (htexts.imp fun _ _ h u => h.reads u) empty
  rw [foldl_insert_of_perm hes] at hreads
  exact .table hs hreads

theorem spelling_layout (t : Table) (depth : Nat) : t.Spelling (t.toJson.layout depth) := by
  obtain ⟨s, hs, hbody⟩ := Value.layout_object depth (t.entries.map fun e => (e.1, .string e.2))
  rw [Table.toJson, hs]
  refine .mk (.refl _) ?_ hbody
  rw [List.map_map]
  refine List.forall₂_map_right_iff.2 (List.forall₂_same.2 fun e _ => ?_)
  exact .mk (quotedText_quoteText e.2)
    (.mk (quotedText_quoteText e.1) spaces_nil spaces_singleton)

end Table

inductive BlockId.Spelling (id : BlockId) : List Char → Prop where
  | mk : Spelling id (Nat.toDigits 10 id.toNat)

theorem BlockId.Spelling.reads {id : BlockId} {text : List Char} (h : id.Spelling text) :
    Reads BlockId.reader text id := by
  obtain ⟨⟩ := h
  have hnumber := (Reads.natural "u64" id.toNat_lt).bind_pure BlockId.ofNat
  rwa [BlockId.ofNat_toNat] at hnumber

theorem BlockId.Spelling.opens {id : BlockId} {text : List Char} (h : id.Spelling text) :
    ∃ c s, text = c :: s ∧ opensValue c = true := by
  obtain ⟨⟩ := h
  obtain ⟨d, ds, hdigits, hd⟩ := toDigits_eq_cons id.toNat
  exact ⟨d, ds, hdigits, by simp [opensValue, hd]⟩

namespace Socket

def fieldTexts (s : Socket) : List FieldText :=
  [⟨"name", QuotedText s.name, s.name = ""⟩, ⟨"kind", QuotedText s.kind, s.kind = anyKind⟩,
    ⟨"block", OptionText BlockId.Spelling s.block, s.block = none⟩]

def Spelling (s : Socket) : List Char → Prop :=
  ObjectText s.fieldTexts

def kept (s : Socket) (names : List String) : SocketDraft where
  name := given "name" s.name names
  kind := given "kind" s.kind names
  block := given "block" s.block names

theorem keeps (s : Socket) : Keeps record s.fieldTexts s.kept s where
  start := rfl
  names := rfl
  takes := by
    simp only [fieldTexts, List.forall_mem_cons, List.not_mem_nil, false_implies, implies_true,
      and_true]
    refine ⟨takes_of rfl (fun _ => rfl) ?_ fun _ => reads_string,
      takes_of rfl (fun _ => rfl) ?_ fun _ => reads_string,
      takes_of rfl (fun _ => rfl) ?_ fun _ ho => ho.reads (fun _ _ => BlockId.Spelling.reads)
        fun _ _ => BlockId.Spelling.opens⟩
    all_goals
      intro names
      simp [kept, given_concat_of_ne]
  finish names hgiven := by
    simp only [fieldTexts, List.forall_mem_cons, List.not_mem_nil, false_implies, implies_true,
      and_true] at hgiven
    obtain ⟨hname, hkind, hblock⟩ := hgiven
    simp only [record, SocketDraft.finish, kept, getD_given hname, getD_given hkind,
      getD_given hblock]

theorem Spelling.reads {s : Socket} {text : List Char} (h : s.Spelling text) :
    Reads (Reader.record record) text s :=
  ObjectText.reads h s.keeps

theorem spelling_layout (s : Socket) (depth : Nat) : s.Spelling (s.toJson.layout depth) := by
  refine .layout ?_ ?_ ?_
  · simp only [List.forall_mem_append, List.forall_mem_cons]
    refine ⟨⟨.nth 0 rfl rfl (quotedText_quoteText s.name),
      .nth 1 rfl rfl (quotedText_quoteText s.kind), nofun⟩, ?_⟩
    refine forall_mem_optionalMember fun id hid => .nth 2 rfl rfl ?_
    rw [show s.block = some id from hid]
    exact .some .mk
  · simp only [List.map_append, names_optionalMember]
    exact ((List.Sublist.refl ["name", "kind"]).append sublist_unless).nodup (by decide)
  · simp only [List.map_append, names_optionalMember, fieldTexts, List.forall_mem_cons]
    simp [or_iff_not_imp_right]

end Socket

namespace Block

def fieldTexts (b : Block) : List FieldText :=
  [⟨"id", b.id.Spelling, b.id = .null⟩, ⟨"genus", QuotedText b.genus, False⟩,
    ⟨"label", OptionText QuotedText b.label, b.label = none⟩,
    ⟨"properties", b.properties.Spelling, b.properties = .empty⟩,
    ⟨"sockets", ListText Socket.Spelling b.sockets, b.sockets = []⟩,
    ⟨"plug", OptionText Socket.Spelling b.plug, b.plug = none⟩,
    ⟨"next", OptionText BlockId.Spelling b.next, b.next = none⟩]

def Spelling (b : Block) : List Char → Prop :=
  ObjectText b.fieldTexts

def kept (b : Block) (names : List String) : BlockDraft where
  id := given "id" b.id names
  genus := given "genus" b.genus names
  label := given "label" b.label names
  properties := given "properties" b.properties names
  sockets := given "sockets" b.sockets names
  plug := given "plug" b.plug names
  next := given "next" b.next names

theorem keeps (b : Block) : Keeps record b.fieldTexts b.kept b where
  start := rfl
  names := rfl
  takes := by
    simp only [fieldTexts, List.forall_mem_cons, List.not_mem_nil, false_implies, implies_true,
      and_true]
    refine ⟨takes_of rfl (fun _ => rfl) ?_ fun _ => BlockId.Spelling.reads,
      takes_of rfl (fun _ => rfl) ?_ fun _ => reads_string,
      takes_of rfl (fun _ => rfl) ?_ fun _ ho => ho.reads (fun _ _ => reads_string)
        fun _ _ => QuotedText.opens,
      takes_of rfl (fun _ => rfl) ?_ fun _ => Table.Spelling.reads,
      takes_of rfl (fun _ => rfl) ?_ fun _ hs => hs.reads fun _ _ => Socket.Spelling.reads,
      takes_of rfl (fun _ => rfl) ?_ fun _ ho => ho.reads (fun _ _ => Socket.Spelling.reads)
        fun _ _ => ObjectText.opens,
      takes_of rfl (fun _ => rfl) ?_ fun _ ho => ho.reads (fun _ _ => BlockId.Spelling.reads)
        fun _ _ => BlockId.Spelling.opens⟩
    all_goals
      intro names
      simp [kept, given_concat_of_ne]
  finish names hgiven := by
    simp only [fieldTexts, List.forall_mem_cons, List.not_mem_nil, false_implies, implies_true,
      and_true, or_false] at hgiven
    obtain ⟨hid, hgenus, hlabel, hproperties, hsockets, hplug, hnext⟩ := hgiven
    have hgenus : given "genus" b.genus names = some b.genus := if_pos hgenus
    simp only [record, BlockDraft.finish, kept, hgenus, getD_given hid, getD_given hlabel,
      getD_given hproperties, getD_given hsockets, getD_given hplug, getD_given hnext]

theorem Spelling.reads {b : Block} {text : List Char} (h : b.Spelling text) :
    Reads (Reader.record record) text b :=
  ObjectText.reads h b.keeps

theorem spelling_layout (b : Block) (depth : Nat) : b.Spelling (b.toJson.layout depth) := by
  refine .layout ?_ ?_ ?_
  · simp only [List.forall_mem_append, List.forall_mem_cons]
    refine ⟨⟨⟨⟨⟨⟨.nth 0 rfl rfl .mk, .nth 1 rfl rfl (quotedText_quoteText b.genus), nofun⟩, ?_⟩,
      ?_⟩, ?_⟩, ?_⟩, ?_⟩
    · refine forall_mem_optionalMember fun label hlabel => .nth 2 rfl rfl ?_
      rw [show b.label = some label from hlabel]
      exact .some (quotedText_quoteText label)
    · exact forall_mem_memberUnless (.nth 3 rfl rfl (b.properties.spelling_layout (depth + 1)))
    · exact forall_mem_memberUnless
        (.nth 4 rfl rfl (.layout fun s _ => s.spelling_layout (depth + 2)))
    · refine forall_mem_optionalMember fun plug hplug => .nth 5 rfl rfl ?_
      rw [show b.plug = some plug from hplug]
      exact .some (plug.spelling_layout (depth + 1))
    · refine forall_mem_optionalMember fun next hnext => .nth 6 rfl rfl ?_
      rw [show b.next = some next from hnext]
      exact .some .mk
  · simp only [List.map_append, names_optionalMember, names_memberUnless]
    exact ((((((List.Sublist.refl ["id", "genus"]).append sublist_unless).append
      sublist_unless).append sublist_unless).append sublist_unless).append sublist_unless).nodup
        (by decide)
  · have hproperties : ¬b.properties = .empty → b.properties.isEmpty = false := fun hne =>
      Bool.eq_false_iff.2 fun hempty => hne (Table.eq_empty_of_isEmpty hempty)
    simp only [List.map_append, names_optionalMember, names_memberUnless, fieldTexts,
      List.forall_mem_cons]
    simpa [or_iff_not_imp_right] using hproperties

end Block

namespace BlockGraph

def fieldTexts (bs : List Block) : List FieldText :=
  [⟨"blocks", ListText Block.Spelling bs, bs = []⟩]

theorem keeps (bs : List Block) : Keeps blocksRecord (fieldTexts bs) (given "blocks" bs) bs where
  start := given_nil
  names := rfl
  takes := by
    simp only [fieldTexts, List.forall_mem_singleton]
    exact takes_of rfl (fun _ => rfl) (fun _ => given_concat_self.symm) fun _ hs =>
      hs.reads fun _ _ => Block.Spelling.reads
  finish names hgiven := by
    simp only [fieldTexts, List.forall_mem_singleton] at hgiven
    exact congrArg Except.ok (getD_given hgiven)

inductive Spelling (g : BlockGraph) : List Char → Prop where
  | mk {before after text : List Char} (hbefore : Spaces before) (hafter : Spaces after)
      (h : ObjectText (fieldTexts g.blocks) text) : Spelling g (before ++ (text ++ after))

theorem spelling_document (g : BlockGraph) : g.Spelling g.document.toList := by
  have hdocument : ObjectText (fieldTexts g.blocks) (g.toJson.layout 0) := by
    refine .layout ?_ (List.nodup_singleton _) (List.forall_mem_singleton.2 (.inl (.head _)))
    refine List.forall_mem_singleton.2 ⟨_, .head _, rfl, ?_⟩
    exact .layout fun b _ => b.spelling_layout 2
  have htext : g.document.toList = [] ++ (g.toJson.layout 0 ++ []) := by
    simp [document, Value.pretty]
  rw [htext]
  exact .mk spaces_nil spaces_nil hdocument

theorem Spelling.run {g : BlockGraph} {text : List Char} (h : g.Spelling text) :
    ∃ after, Spaces after ∧ (Reader.record blocksRecord).run text = .ok (g.blocks, after) := by
  obtain ⟨hbefore, hafter, hs⟩ := h
  exact ⟨_, hafter, hs.reads (keeps g.blocks) hbefore hafter.stops⟩

theorem ofDocument_spelling {g : BlockGraph} {text : String} (h : g.Spelling text.toList) :
    ofDocument text = .ok g ∧ Arena.ofDocument text = .ok g.arena := by
  obtain ⟨after, hafter, hread⟩ := h.run
  have hgraph : ofDocument text = .ok g := by
    simp [ofDocument, hread, ofBlocks_blocks, skipSpace_of_spaces hafter]
  refine ⟨hgraph, ?_⟩
  rw [ofDocument_arena, hgraph]
  rfl

def waitingBlock : Block :=
  { Block.ofGenus "wait" with id := .ofNat 7, sockets := [.any ""] }

def waiting : BlockGraph where
  blocks := [waitingBlock]
  named := by decide
  distinct := by decide

def respelt : String :=
  "\n\x7b\"v\":[\x7b\"\\uD800\" :1e9\x7d],\"blocks\": [\x7b\"next\":null, \"sockets\":[\x7b\x7d], " ++
    "\"genus\":\"wait\",\"id\":7\x7d]\x7d "

theorem valueText_unknown : ValueText "[\x7b\"\\uD800\" :1e9\x7d]".toList := by
  have hzero : IsHexDigit 0 '0' := ⟨by decide, .inl rfl⟩
  have hhalf : PieceText ['\\', 'u', 'D', '8', '0', '0'] :=
    .half (.mk (k := 13) (l := 8) ⟨by decide, .inr rfl⟩ ⟨by decide, .inl rfl⟩ hzero hzero)
  have hone : Digits ['1'] := ⟨by decide, List.forall_mem_singleton.2 rfl⟩
  have hnine : Digits ['9'] := ⟨by decide, List.forall_mem_singleton.2 rfl⟩
  have hnumeral : NumeralText ['1', 'e', '9'] :=
    .mk (.inl rfl) hone (by decide) .none (.some (.inl rfl) (.inl rfl) hnine)
  have hmember := MemberText.mk (.mk (List.forall_mem_singleton.2 hhalf)) spaces_singleton
    spaces_nil (.numeral hnumeral)
  have hobject := ValueText.object (.cons _ spaces_nil rfl (by decide) (.close spaces_nil))
    (List.forall_mem_singleton.2 hmember)
  exact .array (.cons _ spaces_nil rfl (by decide) (.close spaces_nil))
    (List.forall_mem_singleton.2 hobject)

theorem spelling_respelt : waiting.Spelling respelt.toList := by
  have hkey (t : String) : QuotedText t (quoteText t) := quotedText_quoteText t
  have hmember (name : String) (value : List Char) : KeyedText name value _ :=
    .mk (hkey name) spaces_nil spaces_nil
  have hsocket : (Socket.any "").Spelling _ :=
    .mk .nil (by simp [Socket.fieldTexts, Socket.any, Socket.empty]) (.nil spaces_nil)
  have hsockets : ListText Socket.Spelling [Socket.any ""] _ :=
    .mk (.cons hsocket .nil) (.cons _ spaces_nil rfl (by decide) (.close spaces_nil))
  have hid : MembersText waitingBlock.fieldTexts ["id"] _ :=
    .known (.head _) .mk (hmember "id" ['7']) (by decide) .nil
  have hgenus : MembersText waitingBlock.fieldTexts ["genus", "id"] _ :=
    .known (.tail _ (.head _)) (hkey "wait") (hmember _ _) (by decide) hid
  have hfifth : waitingBlock.fieldTexts[4]? = some _ := rfl
  have hlast : waitingBlock.fieldTexts[6]? = some _ := rfl
  have hmembers : MembersText waitingBlock.fieldTexts ["next", "sockets", "genus", "id"] _ :=
    .known (List.mem_of_getElem? hlast) .none (hmember _ _) (by decide)
      (.known (List.mem_of_getElem? hfifth) hsockets (hmember _ _) (by decide) hgenus)
  have hblock : waitingBlock.Spelling _ :=
    .mk hmembers (by simp [Block.fieldTexts, waitingBlock, Block.ofGenus])
      (.cons _ spaces_nil rfl (by decide) (.item _ spaces_nil spaces_singleton
        (.item _ spaces_nil spaces_singleton (.item _ spaces_nil spaces_nil (.close spaces_nil)))))
  have hblocks : ListText Block.Spelling waiting.blocks _ :=
    .mk (.cons hblock .nil) (.cons _ spaces_nil rfl (by decide) (.close spaces_nil))
  have hdocument : ObjectText (fieldTexts waiting.blocks) _ :=
    .mk (.unknown (by simp [fieldTexts]) valueText_unknown (hmember "v" _)
        (.known (.head _) hblocks (.mk (hkey _) spaces_nil spaces_singleton) (by decide) .nil))
      (by simp [fieldTexts])
      (.cons _ spaces_nil rfl (by decide) (.item _ spaces_nil spaces_nil (.close spaces_nil)))
  have hbreak : Spaces ['\n'] := by simp [Spaces, isSpace]
  exact .mk hbreak spaces_singleton hdocument

theorem ofDocument_respelt :
    ofDocument respelt = .ok waiting ∧ Arena.ofDocument respelt = .ok waiting.arena :=
  ofDocument_spelling spelling_respelt

end BlockGraph

end VisualProgram
