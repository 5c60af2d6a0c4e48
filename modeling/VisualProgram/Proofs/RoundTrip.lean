import VisualProgram.Document.Printer
import VisualProgram.Proofs.Arena
import VisualProgram.Proofs.Reading

namespace VisualProgram

open Json

namespace Json

variable {α β σ : Type} {r : Reader α} {a : α}

def opensValue (c : Char) : Bool :=
  c.isDigit || c == '"' || c == '[' || c == '{'

theorem of_opensValue {c : Char} (h : opensValue c = true) :
    isSpace c = false ∧ c ≠ ']' ∧ c ≠ 'n' := by
  refine ⟨?_, ?_, ?_⟩
  · simp only [opensValue, Bool.or_eq_true, beq_iff_eq] at h
    rcases h with ((h | rfl) | rfl) | rfl
    · exact isSpace_of_isDigit h
    all_goals rfl
  all_goals
    rintro rfl
    exact absurd h (by decide)

def memberText (depth : Nat) (m : String × Value) : List Char :=
  quoteText m.1 ++ ':' :: ' ' :: m.2.layout depth

theorem memberText_eq (depth : Nat) (key : String) (v : Value) :
    memberText depth (key, v) = quoteText key ++ ([] ++ ':' :: ([' '] ++ v.layout depth)) :=
  rfl

def ReadsValue (r : Reader α) (v : Value) (a : α) : Prop :=
  ∀ depth, Reads r (v.layout depth) a

def ReadsMembers (fields : List (Field σ)) (d : σ) (ms : List (String × Value)) (d' : σ) : Prop :=
  ∀ depth, ReadsEach (Reader.member fields) d (ms.map (memberText depth)) d'

theorem spaces_singleton : Spaces [' '] := by
  simp [Spaces, isSpace]

theorem forall_mem_optionalMember {name : String} {write : α → Value} {o : Option α}
    {p : String × Value → Prop} (h : ∀ a ∈ o, p (name, write a)) :
    ∀ m ∈ optionalMember name write o, p m := by
  cases o with
  | none => exact nofun
  | some a => exact List.forall_mem_singleton.2 (h a rfl)

theorem forall_mem_memberUnless {name : String} {v : Value} {omitted : Bool}
    {p : String × Value → Prop} (h : p (name, v)) :
    ∀ m ∈ (if omitted then [] else [(name, v)]), p m := by
  cases omitted with
  | true => exact nofun
  | false => exact List.forall_mem_singleton.2 h

namespace Value

theorem layout_eq_cons (depth : Nat) (v : Value) :
    ∃ c s, v.layout depth = c :: s ∧ opensValue c = true := by
  cases v with
  | number n =>
    obtain ⟨d, ds, h, hd⟩ := Reader.toDigits_eq_cons n
    exact ⟨d, ds, h, by simp [opensValue, hd]⟩
  | string t => exact ⟨'"', _, rfl, rfl⟩
  | array vs => cases vs <;> exact ⟨'[', _, rfl, rfl⟩
  | object ms => rcases ms with _ | ⟨⟨k, v⟩, ms⟩ <;> exact ⟨'{', _, rfl, rfl⟩

theorem groupTail_layoutItems (depth outer : Nat) (vs : List Value) :
    GroupTail ']' (vs.map (layout depth)) (layoutItems depth vs ++ (newLine outer ++ [']'])) := by
  induction vs with
  | nil => exact .close (spaces_newLine outer)
  | cons v vs ih =>
    have h := ih.item (v.layout depth) spaces_nil (spaces_newLine depth)
    simpa [layoutItems] using h

theorem groupTail_layoutMembers (depth outer : Nat) (ms : List (String × Value)) :
    GroupTail '}' (ms.map (memberText depth))
      (layoutMembers depth ms ++ (newLine outer ++ ['}'])) := by
  induction ms with
  | nil => exact .close (spaces_newLine outer)
  | cons m ms ih =>
    have h := ih.item (memberText depth m) spaces_nil (spaces_newLine depth)
    simpa [layoutMembers, memberText] using h

theorem layout_array (depth : Nat) (vs : List Value) :
    ∃ s, layout depth (.array vs) = '[' :: s ∧ GroupBody ']' (vs.map (layout (depth + 1))) s := by
  cases vs with
  | nil => exact ⟨_, rfl, .nil spaces_nil⟩
  | cons v vs =>
    obtain ⟨c, s, h, hc⟩ := layout_eq_cons (depth + 1) v
    obtain ⟨hspace, harray, -⟩ := of_opensValue hc
    have htail := groupTail_layoutItems (depth + 1) depth vs
    have hbody := GroupBody.cons s (spaces_newLine (depth + 1)) hspace harray htail
    rw [List.map_cons, h]
    exact ⟨_, by simp [layout, h], hbody⟩

theorem layout_object (depth : Nat) (ms : List (String × Value)) :
    ∃ s, layout depth (.object ms) = '{' :: s ∧
      GroupBody '}' (ms.map (memberText (depth + 1))) s := by
  cases ms with
  | nil => exact ⟨_, rfl, .nil spaces_nil⟩
  | cons m ms =>
    have htail := groupTail_layoutMembers (depth + 1) depth ms
    obtain ⟨s, h⟩ : ∃ s, memberText (depth + 1) m = '"' :: s := ⟨_, rfl⟩
    have hspace : isSpace '"' = false := rfl
    have hbody := GroupBody.cons s (spaces_newLine (depth + 1)) hspace (by decide) htail
    rw [List.map_cons, h]
    exact ⟨_, by simp [layout, ← h, memberText], hbody⟩

end Value

namespace ReadsValue

theorem natural {n : Nat} (expected : String) (hn : n < UInt64.size) :
    ReadsValue (Reader.natural expected) (.number n) n :=
  fun _ => .natural expected hn

theorem string (t : String) : ReadsValue Reader.string (.string t) t :=
  fun _ => .string t

theorem bind_pure {v : Value} (h : ReadsValue r v a) (f : α → β) :
    ReadsValue (r >>= fun x => pure (f x)) v (f a) :=
  fun depth => (h depth).bind_pure f

theorem optional {v : Value} (h : ReadsValue r v a) :
    ReadsValue (Reader.optional r) v (some a) := by
  intro depth
  obtain ⟨c, s, hv, hc⟩ := v.layout_eq_cons depth
  obtain ⟨hspace, -, hn⟩ := of_opensValue hc
  have hr := h depth
  rw [hv] at hr ⊢
  exact hr.optional hspace hn

theorem items {write : α → Value} {as : List α} (h : ∀ a ∈ as, ReadsValue r (write a) a)
    (depth : Nat) :
    ReadsEach (fun as => do return as ++ [← r]) [] ((as.map write).map (Value.layout depth)) as := by
  refine .items ?_
  rw [List.map_map]
  exact List.forall₂_map_right_iff.2 (List.forall₂_same.2 fun a ha => h a ha depth)

theorem list {write : α → Value} {as : List α} (h : ∀ a ∈ as, ReadsValue r (write a) a) :
    ReadsValue (Reader.list r) (.array (as.map write)) as := by
  intro depth
  obtain ⟨s, hs, hbody⟩ := Value.layout_array depth (as.map write)
  rw [hs]
  exact .list hbody (items h (depth + 1))

theorem entries (t : Table) (depth : Nat) :
    ReadsEach Reader.tableEntry .empty
      ((t.entries.map fun e => (e.1, Value.string e.2)).map (memberText depth)) t := by
  have hentry (e : String × String) (u : Table) : Reads (Reader.tableEntry u)
      (memberText depth (e.1, .string e.2)) (u.insert e.1 e.2) := by
    rw [memberText_eq, Value.layout]
    exact .tableEntry u e.1 e.2 spaces_nil spaces_singleton
  have hreads := ReadsEach.foldl
    (List.forall₂_map_right_iff.2 (List.forall₂_same.2 fun e (_ : e ∈ t.entries) => hentry e)) .empty
  -- the entries are in the order of their keys, so each insertion is at the end
  rw [t.foldl_insert_entries] at hreads
  rw [List.map_map]
  exact hreads

theorem table (t : Table) : ReadsValue Reader.table t.toJson t := by
  intro depth
  obtain ⟨s, hs, hbody⟩ := Value.layout_object depth (t.entries.map fun e => (e.1, .string e.2))
  rw [Table.toJson, hs]
  exact .table hbody (entries t (depth + 1))

theorem record {ρ : Record σ α} {ms : List (String × Value)} {d : σ}
    (h : ReadsMembers ρ.fields ρ.draft ms d) (hd : ρ.ofObject d = .ok a) :
    ReadsValue (Reader.record ρ) (.object ms) a := by
  intro depth
  obtain ⟨s, hs, hbody⟩ := Value.layout_object depth ms
  rw [hs]
  exact .record hbody (h (depth + 1)) hd

end ReadsValue

namespace ReadsMembers

variable {fields : List (Field σ)} {d d' d'' : σ} {ms ms' : List (String × Value)}

theorem append (h : ReadsMembers fields d ms d') (h' : ReadsMembers fields d' ms' d'') :
    ReadsMembers fields d (ms ++ ms') d'' := by
  intro depth
  rw [List.map_append]
  exact (h depth).append (h' depth)

theorem singleton {key : String} {get : σ → Option β} {set : σ → β → σ} {value : Reader β}
    {v : Value} {b : β}
    (hkey : fields.find? (·.name == key) = some (.of key get set value)) (hget : get d = none)
    (hset : set d b = d') (h : ReadsValue value v b) : ReadsMembers fields d [(key, v)] d' := by
  subst hset
  intro depth
  have hset : (Field.of key get set value).isSet d = false := by simp [Field.of, hget]
  have hread : Reads ((Field.of key get set value).read d) (v.layout depth) (set d b) :=
    (h depth).bind_pure (set d)
  have hmember : Reads (Reader.member fields d) (memberText depth (key, v)) (set d b) := by
    rw [memberText_eq]
    exact .member hkey hset spaces_nil spaces_singleton hread
  exact .cons hmember .nil

-- `draft` says what the draft is by what it has for the field in question.
theorem optionalMember {key : String} {get : σ → Option (Option β)} {set : σ → Option β → σ}
    {value : Reader β} {write : β → Value} (draft : Option (Option β) → σ) (o : Option β)
    (hkey : fields.find? (·.name == key) = some (.of key get set (.optional value)))
    (hget : get (draft none) = none) (hset : ∀ b, set (draft none) b = draft (some b))
    (h : ∀ b, ReadsValue value (write b) b) :
    ReadsMembers fields (draft none) (optionalMember key write o) (draft (o.map some)) := by
  -- what is left out leaves the field unset, what is there sets it
  cases o with
  | none => exact fun _ => .nil
  | some b => exact singleton hkey hget (hset b) (h b).optional

theorem memberUnless {key : String} {get : σ → Option β} {set : σ → β → σ} {value : Reader β}
    {v : Value} {b : β} (draft : Option β → σ) (omitted : Bool)
    (hkey : fields.find? (·.name == key) = some (.of key get set value))
    (hget : get (draft none) = none) (hset : set (draft none) b = draft (some b))
    (h : ReadsValue value v b) :
    ReadsMembers fields (draft none) (if omitted then [] else [(key, v)])
      (draft (if omitted then none else some b)) := by
  cases omitted with
  | true => exact fun _ => .nil
  | false => exact singleton hkey hget hset h

end ReadsMembers

end Json

namespace BlockId

theorem ofNat_toNat (id : BlockId) : ofNat id.toNat = id :=
  eq_of_value_eq UInt64.ofNat_toNat

theorem reads (id : BlockId) : ReadsValue reader id.toJson id := by
  have h := (ReadsValue.natural "u64" id.toNat_lt).bind_pure ofNat
  rwa [ofNat_toNat] at h

end BlockId

def Socket.draft (s : Socket) : SocketDraft :=
  ⟨some s.name, some s.kind, s.block.map some⟩

theorem Socket.finish_draft (s : Socket) : s.draft.finish = s := by
  cases s with
  | mk name kind block => cases block <;> rfl

theorem Socket.readsMembers (s : Socket) :
    ReadsMembers record.fields record.draft
      ([("name", .string s.name), ("kind", .string s.kind)] ++
        optionalMember "block" BlockId.toJson s.block) s.draft := by
  have hname : ReadsMembers record.fields record.draft [("name", .string s.name)]
      { s.draft with kind := none, block := none } :=
    .singleton rfl rfl rfl (.string s.name)
  have hkind : ReadsMembers record.fields { s.draft with kind := none, block := none }
      [("kind", .string s.kind)] { s.draft with block := none } :=
    .singleton rfl rfl rfl (.string s.kind)
  have hblock : ReadsMembers record.fields { s.draft with block := none }
      (optionalMember "block" BlockId.toJson s.block) s.draft :=
    .optionalMember (fun block => { s.draft with block }) s.block rfl rfl (fun _ => rfl)
      BlockId.reads
  exact (hname.append hkind).append hblock

theorem Socket.reads (s : Socket) : ReadsValue (Reader.record record) s.toJson s :=
  .record s.readsMembers (congrArg Except.ok s.finish_draft)

def Block.draft (b : Block) : BlockDraft where
  id := some b.id
  genus := some b.genus
  label := b.label.map some
  properties := if b.properties.isEmpty then none else some b.properties
  sockets := if b.sockets.isEmpty then none else some b.sockets
  plug := b.plug.map some
  next := b.next.map some

theorem Table.eq_empty_of_isEmpty {t : Table} (h : t.isEmpty = true) : t = empty :=
  ext (List.isEmpty_iff.1 h)

theorem getD_map_some {α : Type} (o : Option α) : (o.map some).getD none = o := by
  cases o <;> rfl

theorem Block.finish_draft (missing : Mismatch) (b : Block) : b.draft.finish missing = .ok b := by
  have hproperties : (if b.properties.isEmpty then none else some b.properties).getD .empty =
      b.properties := by
    split
    · next h => exact (Table.eq_empty_of_isEmpty h).symm
    · rfl
  have hsockets : (if b.sockets.isEmpty then none else some b.sockets).getD [] = b.sockets := by
    split
    · next h => exact (List.isEmpty_iff.1 h).symm
    · rfl
  simp only [BlockDraft.finish, draft, hproperties, hsockets, getD_map_some,
    Option.getD_some]

theorem Block.readsMembers (b : Block) :
    ReadsMembers record.fields record.draft
      ([("id", b.id.toJson), ("genus", .string b.genus)] ++
        optionalMember "label" .string b.label ++
        (if b.properties.isEmpty then [] else [("properties", b.properties.toJson)]) ++
        (if b.sockets.isEmpty then [] else [("sockets", .array (b.sockets.map Socket.toJson))]) ++
        optionalMember "plug" Socket.toJson b.plug ++
        optionalMember "next" BlockId.toJson b.next) b.draft := by
  have hid : ReadsMembers record.fields record.draft [("id", b.id.toJson)]
      { record.draft with id := some b.id } :=
    .singleton rfl rfl rfl b.id.reads
  have hgenus : ReadsMembers record.fields { record.draft with id := some b.id }
      [("genus", .string b.genus)] { record.draft with id := some b.id, genus := some b.genus } :=
    .singleton rfl rfl rfl (.string b.genus)
  have hlabel : ReadsMembers record.fields
      { record.draft with id := some b.id, genus := some b.genus }
      (optionalMember "label" .string b.label)
      { b.draft with properties := none, sockets := none, plug := none, next := none } :=
    .optionalMember
      (fun label => { record.draft with id := some b.id, genus := some b.genus, label }) b.label
      rfl rfl (fun _ => rfl) .string
  have hproperties : ReadsMembers record.fields
      { b.draft with properties := none, sockets := none, plug := none, next := none }
      (if b.properties.isEmpty then [] else [("properties", b.properties.toJson)])
      { b.draft with sockets := none, plug := none, next := none } :=
    .memberUnless
      (fun properties => { b.draft with properties, sockets := none, plug := none, next := none }) _
      rfl rfl rfl (.table b.properties)
  have hsockets : ReadsMembers record.fields
      { b.draft with sockets := none, plug := none, next := none }
      (if b.sockets.isEmpty then [] else [("sockets", .array (b.sockets.map Socket.toJson))])
      { b.draft with plug := none, next := none } :=
    .memberUnless (fun sockets => { b.draft with sockets, plug := none, next := none }) _
      rfl rfl rfl (.list fun s _ => s.reads)
  have hplug : ReadsMembers record.fields { b.draft with plug := none, next := none }
      (optionalMember "plug" Socket.toJson b.plug) { b.draft with next := none } :=
    .optionalMember (fun plug => { b.draft with plug, next := none }) b.plug rfl rfl (fun _ => rfl)
      Socket.reads
  have hnext : ReadsMembers record.fields { b.draft with next := none }
      (optionalMember "next" BlockId.toJson b.next) b.draft :=
    .optionalMember (fun next => { b.draft with next }) b.next rfl rfl (fun _ => rfl) BlockId.reads
  exact (((((hid.append hgenus).append hlabel).append hproperties).append
    hsockets).append hplug).append hnext

theorem Block.reads (b : Block) : ReadsValue (Reader.record record) b.toJson b :=
  .record b.readsMembers (b.finish_draft (.missingField "genus"))

namespace BlockGraph

theorem readsMembers (bs : List Block) :
    ReadsMembers blocksRecord.fields blocksRecord.draft
      [("blocks", .array (bs.map Block.toJson))] (some bs) :=
  .singleton rfl rfl rfl (.list fun b _ => b.reads)

theorem reads (g : BlockGraph) : ReadsValue (Reader.record blocksRecord) g.toJson g.blocks :=
  .record (readsMembers g.blocks) rfl

theorem ofBlocks_blocks (g : BlockGraph) : ofBlocks g.blocks = .ok g :=
  foldlM_insert_eq_ok_iff.2 rfl

theorem ofDocument_document (g : BlockGraph) :
    ofDocument g.document = .ok g ∧ Arena.ofDocument g.document = .ok g.arena := by
  have hread : (Reader.record blocksRecord).run g.document.toList = .ok (g.blocks, []) := by
    have h := g.reads 0 spaces_nil stops_nil
    simpa [document, Value.pretty] using h
  have hgraph : ofDocument g.document = .ok g := by
    simp [ofDocument, hread, ofBlocks_blocks, skipSpace]
  refine ⟨hgraph, ?_⟩
  rw [ofDocument_arena, hgraph]
  rfl

end BlockGraph

end VisualProgram
