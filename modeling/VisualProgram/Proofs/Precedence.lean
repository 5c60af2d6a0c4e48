import VisualProgram.Registry.Standard

/-!
Arithmetic expressions as text, and how the target language reads them: products, quotients and
remainders before sums and differences, operators of one level from the left, parentheses first. Text
without parentheses is always read as an expression that is grouped by these rules.
-/

namespace VisualProgram.Arithmetic

inductive Operator where
  | sum
  | difference
  | product
  | quotient
  | remainder
  deriving DecidableEq

namespace Operator

def genus : Operator → String
  | sum => "sum"
  | difference => "difference"
  | product => "product"
  | quotient => "quotient"
  | remainder => "remainder"

def symbol : Operator → Char
  | sum => '+'
  | difference => '-'
  | product => '*'
  | quotient => '/'
  | remainder => '%'

def level : Operator → Nat
  | sum | difference => 0
  | product | quotient | remainder => 1

theorem level_le_one (o : Operator) : o.level ≤ 1 := by
  cases o <;> decide

end Operator

inductive Expr where
  | word (text : String)
  | node (o : Operator) (l r : Expr)
  deriving DecidableEq

inductive Token where
  | word (text : String)
  | operator (o : Operator)
  | opening
  | closing
  deriving DecidableEq

def symbol? : Char → Option Token
  | '+' => some (.operator .sum)
  | '-' => some (.operator .difference)
  | '*' => some (.operator .product)
  | '/' => some (.operator .quotient)
  | '%' => some (.operator .remainder)
  | '(' => some .opening
  | ')' => some .closing
  | _ => none

def isWordChar (c : Char) : Bool :=
  !c.isWhitespace && (symbol? c).isNone

def IsWord (text : String) : Prop :=
  text ≠ "" ∧ text.toList.all isWordChar = true

instance (text : String) : Decidable (IsWord text) :=
  inferInstanceAs (Decidable (text ≠ "" ∧ text.toList.all isWordChar = true))

def wordToken (word : List Char) : List Token :=
  if word = [] then [] else [.word (String.ofList word)]

def scan : List Char → List Char → List Token
  | word, [] => wordToken word
  | word, c :: cs =>
    if c.isWhitespace then wordToken word ++ scan [] cs
    else
      match symbol? c with
      | some t => wordToken word ++ t :: scan [] cs
      | none => scan (word ++ [c]) cs

/-- What waits for an operand at its right: at most one sum or difference, and behind it at most one
product, quotient or remainder. -/
structure Pending where
  loose : Option (Expr × Operator)
  tight : Option (Expr × Operator)

namespace Pending

def empty : Pending :=
  ⟨none, none⟩

def join : Option (Expr × Operator) → Expr → Expr
  | none, e => e
  | some (l, o), e => .node o l e

def close (p : Pending) (e : Expr) : Expr :=
  join p.loose (join p.tight e)

def push (p : Pending) (e : Expr) (o : Operator) : Pending :=
  if o.level = 1 then ⟨p.loose, some (join p.tight e, o)⟩ else ⟨some (p.close e, o), none⟩

end Pending

inductive Reader where
  | operand (outer : List Pending) (p : Pending)
  | operator (outer : List Pending) (p : Pending) (e : Expr)

namespace Reader

def step : Reader → Token → Option Reader
  | operand outer p, .word text => some (operator outer p (.word text))
  | operand outer p, .opening => some (operand (p :: outer) .empty)
  | operator outer p e, .operator o => some (operand outer (p.push e o))
  | operator (q :: outer) p e, .closing => some (operator outer q (p.close e))
  | _, _ => none

def run (s : Reader) (ts : List Token) : Option Reader :=
  ts.foldlM step s

def expr? : Reader → Option Expr
  | operator [] p e => some (p.close e)
  | _ => none

theorem run_cons (s : Reader) (t : Token) (ts : List Token) :
    s.run (t :: ts) = (s.step t).bind fun s => s.run ts :=
  List.foldlM_cons

theorem run_append (s : Reader) (ts us : List Token) :
    s.run (ts ++ us) = (s.run ts).bind fun s => s.run us :=
  List.foldlM_append

end Reader

def read? (text : String) : Option Expr :=
  ((Reader.operand [] .empty).run (scan [] text.toList)).bind Reader.expr?

example : read? "(a + b) * c" =
    some (.node .product (.node .sum (.word "a") (.word "b")) (.word "c")) := by
  decide

namespace Expr

def text : Expr → String
  | word text => text
  | node o l r => l.text ++ " " ++ String.singleton o.symbol ++ " " ++ r.text

def tokens : Expr → List Token
  | word text => [.word text]
  | node o l r => l.tokens ++ .operator o :: r.tokens

def level : Expr → Nat
  | word _ => 2
  | node o _ _ => o.level

def Plain : Expr → Prop
  | word text => IsWord text
  | node _ l r => l.Plain ∧ r.Plain

def Grouped : Expr → Prop
  | word _ => True
  | node o l r => l.Grouped ∧ r.Grouped ∧ o.level ≤ l.level ∧ o.level < r.level

end Expr

theorem scan_word {cs : List Char} (h : ∀ c ∈ cs, isWordChar c = true) (word rest : List Char) :
    scan word (cs ++ rest) = scan (word ++ cs) rest := by
  induction cs generalizing word with
  | nil => rw [List.nil_append, List.append_nil]
  | cons c cs ih =>
    have hc := h c List.mem_cons_self
    simp only [isWordChar, Bool.and_eq_true, Bool.not_eq_true', Option.isNone_iff_eq_none] at hc
    have hcs := ih (fun d hd => h d (List.mem_cons_of_mem c hd)) (word ++ [c])
    simpa [scan, hc.1, hc.2] using hcs

def AtBlank (rest : List Char) : Prop :=
  ∀ c ∈ rest.head?, c = ' '

theorem scan_of_atBlank {rest : List Char} (h : AtBlank rest) (word : List Char) :
    scan word rest = wordToken word ++ scan [] rest := by
  cases rest with
  | nil => simp [scan, wordToken]
  | cons c cs =>
    obtain rfl : c = ' ' := h c rfl
    simp [scan, wordToken]

namespace Expr

theorem scan_text {e : Expr} (h : e.Plain) {rest : List Char} (hrest : AtBlank rest) :
    scan [] (e.text.toList ++ rest) = e.tokens ++ scan [] rest := by
  induction e generalizing rest with
  | word text =>
    have hne : text.toList ≠ [] := by simpa using h.1
    rw [Expr.text, scan_word (List.all_eq_true.1 h.2), List.nil_append, scan_of_atBlank hrest, wordToken, if_neg hne,
      String.ofList_toList, tokens]
  | node o l r ihl ihr =>
    have htext : (node o l r).text.toList ++ rest =
        l.text.toList ++ ' ' :: o.symbol :: ' ' :: (r.text.toList ++ rest) := by
      simp [Expr.text]
    have hsymbol : scan [] (' ' :: o.symbol :: ' ' :: (r.text.toList ++ rest)) =
        .operator o :: scan [] (r.text.toList ++ rest) := by
      cases o <;> rfl
    have hblank : AtBlank (' ' :: o.symbol :: ' ' :: (r.text.toList ++ rest)) := by
      simp [AtBlank]
    rw [htext, ihl h.1 hblank, hsymbol, ihr h.2 hrest, tokens]
    simp

theorem scan_text_toList {e : Expr} (h : e.Plain) : scan [] e.text.toList = e.tokens := by
  have hrest : AtBlank [] := by simp [AtBlank]
  simpa [scan, wordToken] using scan_text h hrest

end Expr

namespace Pending

def tokensOf : Option (Expr × Operator) → List Token
  | none => []
  | some (l, o) => l.tokens ++ [.operator o]

def tokens (p : Pending) : List Token :=
  tokensOf p.loose ++ tokensOf p.tight

structure Sound (p : Pending) : Prop where
  loose : ∀ l o, p.loose = some (l, o) → l.Grouped ∧ o.level = 0
  tight : ∀ l o, p.tight = some (l, o) → l.Grouped ∧ 1 ≤ l.level ∧ o.level = 1

theorem sound_empty : empty.Sound where
  loose _ _ h := by cases h
  tight _ _ h := by cases h

theorem tokens_join (q : Option (Expr × Operator)) (e : Expr) :
    (join q e).tokens = tokensOf q ++ e.tokens := by
  cases q with
  | none => rfl
  | some q => simp [join, tokensOf, Expr.tokens]

theorem tokens_close (p : Pending) (e : Expr) : (p.close e).tokens = p.tokens ++ e.tokens := by
  rw [close, tokens_join, tokens_join, tokens, List.append_assoc]

theorem tokens_push (p : Pending) (e : Expr) (o : Operator) :
    (p.push e o).tokens = p.tokens ++ e.tokens ++ [.operator o] := by
  unfold push
  split
  · simp [tokens, tokensOf, tokens_join]
  · simp [tokens, tokensOf, tokens_close]

variable {p : Pending} {e : Expr}

theorem Sound.join_tight (h : p.Sound) (text : String) :
    (join p.tight (.word text)).Grouped ∧ 1 ≤ (join p.tight (.word text)).level := by
  cases hp : p.tight with
  | none => exact ⟨trivial, by simp [join, Expr.level]⟩
  | some q =>
    obtain ⟨l, o⟩ := q
    obtain ⟨hl, hlevel, ho⟩ := h.tight l o hp
    simp only [join, Expr.Grouped, Expr.level, ho]
    exact ⟨⟨hl, trivial, hlevel, Nat.one_lt_two⟩, Nat.le_refl 1⟩

theorem Sound.close (h : p.Sound) (text : String) : (p.close (.word text)).Grouped := by
  obtain ⟨hgrouped, hlevel⟩ := h.join_tight text
  cases hp : p.loose with
  | none => simpa [Pending.close, hp, join] using hgrouped
  | some q =>
    obtain ⟨l, o⟩ := q
    obtain ⟨hl, ho⟩ := h.loose l o hp
    simp only [Pending.close, hp, join, Expr.Grouped, ho]
    exact ⟨hl, hgrouped, Nat.zero_le _, hlevel⟩

theorem Sound.push (h : p.Sound) (text : String) (o : Operator) :
    (p.push (.word text) o).Sound := by
  unfold Pending.push
  split
  · next ho =>
    refine ⟨h.loose, fun l o' hl => ?_⟩
    cases hl
    exact ⟨(h.join_tight text).1, (h.join_tight text).2, ho⟩
  · next ho =>
    refine ⟨fun l o' hl => ?_, fun _ _ hl => by cases hl⟩
    cases hl
    have := o.level_le_one
    exact ⟨h.close text, by omega⟩

end Pending

namespace Reader

theorem run_tokens (e : Expr) {p : Pending} (hp : p.Sound) :
    ∃ (p' : Pending) (text : String),
      (operand [] p).run e.tokens = some (operator [] p' (.word text)) ∧ p'.Sound ∧
      p'.tokens ++ [.word text] = p.tokens ++ e.tokens := by
  induction e generalizing p with
  | word text => exact ⟨p, text, rfl, hp, rfl⟩
  | node o l r ihl ihr =>
    obtain ⟨q, t, hl, hq, htokens⟩ := ihl hp
    obtain ⟨p', text, hr, hp', htokens'⟩ := ihr (hq.push t o)
    refine ⟨p', text, ?_, hp', ?_⟩
    · rw [Expr.tokens, run_append, hl]
      exact hr
    · rw [htokens', Pending.tokens_push, Expr.tokens, Expr.tokens, htokens]
      simp

theorem run_tight {e : Expr} (h : e.Grouped) (hlevel : 1 ≤ e.level) (outer : List Pending)
    (loose : Option (Expr × Operator)) :
    ∃ tight last, (operand outer ⟨loose, none⟩).run e.tokens =
        some (operator outer ⟨loose, tight⟩ last) ∧ Pending.join tight last = e := by
  induction e with
  | word text => exact ⟨none, .word text, rfl, rfl⟩
  | node o l r ihl _ =>
    obtain ⟨hl, -, hol, hor⟩ := h
    have ho : o.level = 1 := Nat.le_antisymm o.level_le_one hlevel
    obtain ⟨tight, last, hrun, hjoin⟩ := ihl hl (ho ▸ hol)
    cases r with
    | node o' l' r' =>
      -- No operator is tighter than a product.
      have hle : o'.level ≤ o.level := ho ▸ o'.level_le_one
      exact absurd hor (Nat.not_lt.2 hle)
    | word text =>
      refine ⟨some (l, o), .word text, ?_, rfl⟩
      rw [Expr.tokens, run_append, hrun, ← hjoin]
      simp [run, step, Pending.push, ho, Expr.tokens]

theorem run_grouped {e : Expr} (h : e.Grouped) (outer : List Pending) :
    ∃ p last, (operand outer .empty).run e.tokens = some (operator outer p last) ∧
      p.close last = e := by
  induction e with
  | word text => exact ⟨.empty, .word text, rfl, rfl⟩
  | node o l r ihl _ =>
    by_cases ho : o.level = 1
    · obtain ⟨tight, last, hrun, hjoin⟩ := run_tight h (by simp [Expr.level, ho]) outer none
      exact ⟨⟨none, tight⟩, last, hrun, hjoin⟩
    · obtain ⟨hl, hr, -, hor⟩ := h
      obtain ⟨p, last, hrun, hclose⟩ := ihl hl
      obtain ⟨tight, last', hrun', hjoin⟩ :=
        run_tight hr (Nat.one_le_of_lt hor) outer (some (l, o))
      refine ⟨⟨some (l, o), tight⟩, last', ?_, ?_⟩
      · rw [Expr.tokens, run_append, hrun, ← hrun']
        simp [run_cons, step, Pending.push, ho, hclose]
      · rw [Pending.close, hjoin]
        rfl

end Reader

namespace Expr

variable {e : Expr}

theorem read?_text (h : e.Plain) :
    ∃ e', read? e.text = some e' ∧ e'.Grouped ∧ e'.tokens = e.tokens := by
  obtain ⟨p, text, hrun, hp, htokens⟩ := Reader.run_tokens e Pending.sound_empty
  refine ⟨p.close (.word text), ?_, hp.close text, ?_⟩
  · rw [read?, scan_text_toList h, hrun]
    rfl
  · rw [Pending.tokens_close]
    exact htokens

theorem read?_text_of_grouped (h : e.Plain) (hgrouped : e.Grouped) : read? e.text = some e := by
  obtain ⟨p, last, hrun, hclose⟩ := Reader.run_grouped hgrouped []
  rw [read?, scan_text_toList h, hrun, ← hclose]
  rfl

theorem read?_text_iff (h : e.Plain) : read? e.text = some e ↔ e.Grouped := by
  refine ⟨fun hread => ?_, read?_text_of_grouped h⟩
  obtain ⟨e', hread', hgrouped, -⟩ := read?_text h
  cases hread.symm.trans hread'
  exact hgrouped

end Expr

end VisualProgram.Arithmetic
