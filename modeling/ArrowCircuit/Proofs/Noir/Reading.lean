import ArrowCircuit.Proofs.Noir.Chain
import ArrowCircuit.Proofs.Script.Expressions
import Mathlib.Tactic.Ring

/-!
# The chain of an expression

What the printer shows of an expression: the chain of operands that its text can be read as.  Operands
that are operations or choices are put in parentheses where they stand between operators, behind a sign
or before a method, but not where an element is taken of them or where they are called; and an operand
with a sign is put in parentheses nowhere.  So an element of an operation goes to its last operand.  Plain
expressions have the same text exactly if they have the same chain.
-/

namespace ArrowCircuit.Noir

open Script

/-! ## Chains of expressions -/

/-- Puts more behind an operand. -/
def Suffixes.append : Suffixes → Suffixes → Suffixes
  | .done, s => s
  | .index position more, s => .index position (more.append s)
  | .arguments items more, s => .arguments items (more.append s)
  | .method name items more, s => .method name items (more.append s)

@[inherit_doc Suffixes.append]
def Operand.extend : Operand → Suffixes → Operand
  | .plain core suffixes, s => .plain core (suffixes.append s)
  | .signed op operand, s => .signed op (operand.extend s)

/-- Puts more behind the last operand of a chain. -/
def Chain.extend : Chain → Suffixes → Chain
  | .last operand, s => .last (operand.extend s)
  | .infixed operand op rest, s => .infixed operand op (rest.extend s)

/-- Puts a sign before the first operand of a chain. -/
def Chain.sign (op : UnaryOp) : Chain → Chain
  | .last operand => .last (.signed op operand)
  | .infixed operand op' rest => .infixed (.signed op operand) op' rest

/-- Two chains with an operator between them. -/
def Chain.join : Chain → BinaryOp → Chain → Chain
  | .last operand, op, k => .infixed operand op k
  | .infixed operand op' rest, op, k => .infixed operand op' (rest.join op k)

/-- A chain of one operand, with nothing before or behind it. -/
def Core.chain (k : Core) : Chain := .last (.plain k .done)

/-- The chain of an operand: in parentheses if it needs them. -/
def enclose (e : Expr) (k : Chain) : Chain := if isCompound e then (Core.group k).chain else k

/-- The chain of a literal; the minus of a negative integer is a sign. -/
def literalReading : Literal → Chain
  | .int z =>
    let digits := (Core.word (Nat.toDigits 10 z.natAbs)).chain
    if z < 0 then digits.sign .neg else digits
  | .bool b => (Core.word (if b then "true" else "false").toList).chain
  | .text t => (Core.quoted (Text.units t)).chain

mutual

/-- The chain that the text of an expression shows.  Unknown operators and nodes out of place are not
read. -/
def reading : Expr → Chain
  | .identifier name => (Core.word name.toList).chain
  | .literal v => literalReading v
  | .binary op l r => (enclose l (reading l)).join op (enclose r (reading r))
  | .unary op e => (enclose e (reading e)).sign op
  | .index object position => (reading object).extend (.index (reading position) .done)
  | .call callee none arguments => (reading callee).extend (.arguments (readings arguments) .done)
  | .call callee (some name) arguments =>
    (enclose callee (reading callee)).extend (.method name.toList (readings arguments) .done)
  | .array elements => (Core.array (readings elements)).chain
  | .conditional condition consequent alternate =>
    (Core.choice (reading condition) (reading consequent) (reading alternate)).chain
  | .otherBinary .. | .otherUnary .. | .foreign _ => (Core.word []).chain

/-- The chains of a list of expressions. -/
def readings : List Expr → Items
  | [] => .none
  | e :: rest => .cons (reading e) (readings rest)

end

/-! ## The text shows the chain -/

theorem Suffixes.text_append : ∀ s t : Suffixes, (s.append t).text = s.text ++ t.text
  | .done, t => rfl
  | .index position more, t => by simp [append, text, text_append more t]
  | .arguments items more, t => by simp [append, text, text_append more t]
  | .method name items more, t => by simp [append, text, text_append more t]

theorem Operand.text_extend : ∀ (o : Operand) (s : Suffixes), (o.extend s).text = o.text ++ s.text
  | .plain core suffixes, s => by
      rw [extend, text, text, Suffixes.text_append, List.append_assoc]
  | .signed op operand, s => by
      rw [extend, text, text, text_extend operand s, List.append_assoc]

@[simp]
theorem Chain.text_extend : ∀ (k : Chain) (s : Suffixes), (k.extend s).text = k.text ++ s.text
  | .last operand, s => by
      rw [extend, text, text, Operand.text_extend]
  | .infixed operand op rest, s => by
      rw [extend, text, text, text_extend rest s]
      simp

@[simp]
theorem Chain.text_sign (op : UnaryOp) (k : Chain) : (k.sign op).text = op.symbol.toList ++ k.text := by
  cases k with
  | last operand => rfl
  | infixed operand op' rest => simp [sign, text, Operand.text]

@[simp]
theorem Chain.text_join : ∀ (k : Chain) (op : BinaryOp) (k' : Chain),
    (k.join op k').text = k.text ++ ' ' :: (symbol op).toList ++ ' ' :: k'.text
  | .last operand, op, k' => rfl
  | .infixed operand op' rest, op, k' => by
      rw [join, text, text, text_join rest op k']
      simp

@[simp]
theorem Core.text_chain (k : Core) : k.chain.text = k.text := List.append_nil _

theorem toList_parenthesize (e : Expr) {s : String} {k : Chain} (h : s.toList = k.text) :
    (parenthesize e s).toList = (enclose e k).text := by
  rw [parenthesize, enclose]
  split
  · simp [h, Core.text]
  · exact h

theorem eq_decimal_of_literal {z : Int} {s : String} (h : literal (.int z) = .ok s) :
    s = Numeral.decimal z := by
  unfold literal Numeral.decimal? at h
  -- the bound is a number of thousands of digits
  generalize Nat.pow 10 Numeral.digitLimit = bound at h
  dsimp only at h
  by_cases hz : z.natAbs < bound
  · rw [if_pos hz] at h
    exact (Except.ok.inj h).symm
  · rw [if_neg hz] at h
    cases h

theorem toList_literal {v : Literal} {s : String} (hv : (Expr.literal v).PlainNode)
    (h : literal v = .ok s) : s.toList = (literalReading v).text := by
  cases v with
  | int z =>
      rw [eq_decimal_of_literal h, Numeral.decimal, Numeral.decimalNat, literalReading]
      split
      · simp [Core.text, UnaryOp.symbol]
      · simp [Core.text]
  | bool b =>
      cases h
      simp [literalReading, Core.text]
  | text t =>
      cases h
      rw [Text.escaped, String.toList_ofList, Text.flatMap_escapedPoint hv, literalReading,
        Core.text_chain, Core.text]

mutual

/-- **Texts.** The text of an expression is that of its chain. -/
theorem toList_expr : ∀ (e : Expr) {s : String}, e.Plain → expr e = .ok s →
    s.toList = (reading e).text
  | .identifier name, s, _, h => by
      rw [expr] at h
      cases h
      rw [reading, Core.text_chain, Core.text]
  | .literal v, s, hplain, h => by
      rw [expr] at h
      rw [reading]
      exact toList_literal (Expr.everywhere_literal.mp hplain) h
  | .binary op l r, s, hplain, h => by
      obtain ⟨-, hl, hr⟩ := Expr.everywhere_binary.mp hplain
      rw [expr] at h
      obtain ⟨left, hleft, h⟩ := bind_eq_ok h
      obtain ⟨right, hright, h⟩ := bind_eq_ok h
      cases h
      have hleft := toList_parenthesize l (toList_expr l hl hleft)
      have hright := toList_parenthesize r (toList_expr r hr hright)
      simp [reading, hleft, hright]
  | .unary op e, s, hplain, h => by
      obtain ⟨-, he⟩ := Expr.everywhere_unary.mp hplain
      rw [expr] at h
      obtain ⟨operand, hoperand, h⟩ := bind_eq_ok h
      cases h
      have hoperand := toList_parenthesize e (toList_expr e he hoperand)
      simp [reading, hoperand]
  | .index object position, s, hplain, h => by
      obtain ⟨-, ho, hp⟩ := Expr.everywhere_index.mp hplain
      rw [expr] at h
      obtain ⟨o, hobject, h⟩ := bind_eq_ok h
      obtain ⟨p, hposition, h⟩ := bind_eq_ok h
      cases h
      have hobject := toList_expr object ho hobject
      have hposition := toList_expr position hp hposition
      simp [reading, hobject, hposition, Suffixes.text]
  | .call callee none arguments, s, hplain, h => by
      obtain ⟨-, hc, ha⟩ := Expr.everywhere_call.mp hplain
      rw [expr] at h
      obtain ⟨texts, harguments, h⟩ := bind_eq_ok h
      obtain ⟨text, hcallee, h⟩ := bind_eq_ok h
      cases h
      have hcallee := toList_expr callee hc hcallee
      have harguments := toList_exprs arguments ha harguments
      simp [reading, hcallee, harguments, Suffixes.text]
  | .call callee (some name) arguments, s, hplain, h => by
      obtain ⟨hname, hc, ha⟩ := Expr.everywhere_call.mp hplain
      rw [expr] at h
      obtain ⟨texts, harguments, h⟩ := bind_eq_ok h
      obtain ⟨text, hcallee, h⟩ := bind_eq_ok h
      have hcallee := toList_parenthesize callee (toList_expr callee hc hcallee)
      have harguments := toList_exprs arguments ha harguments
      -- an empty name would be printed like no name, but a word is not empty
      dsimp only at h
      split at h
      · rename_i hsome
        cases hsome
      · rename_i hsome
        cases hsome
        exact absurd rfl hname.1
      · rename_i hsome
        cases hsome
        cases h
        simp [reading, hcallee, harguments, Suffixes.text]
  | .array elements, s, hplain, h => by
      rw [expr] at h
      obtain ⟨texts, helements, h⟩ := bind_eq_ok h
      cases h
      have helements := toList_exprs elements (Expr.everywhere_array.mp hplain).2 helements
      simp [reading, helements, Core.text]
  | .conditional condition consequent alternate, s, hplain, h => by
      obtain ⟨-, hc, ht, he⟩ := Expr.everywhere_conditional.mp hplain
      rw [expr] at h
      obtain ⟨c, hcondition, h⟩ := bind_eq_ok h
      obtain ⟨t, hconsequent, h⟩ := bind_eq_ok h
      obtain ⟨e, halternate, h⟩ := bind_eq_ok h
      cases h
      have hcondition := toList_expr condition hc hcondition
      have hconsequent := toList_expr consequent ht hconsequent
      have halternate := toList_expr alternate he halternate
      simp [reading, hcondition, hconsequent, halternate, Core.text]
  | .otherBinary op l r, s, hplain, _ => (Expr.everywhere_iff.mp hplain).1.elim
  | .otherUnary op e, s, hplain, _ => (Expr.everywhere_iff.mp hplain).1.elim
  | .foreign node, s, hplain, _ => (Expr.everywhere_iff.mp hplain).1.elim

theorem toList_exprs : ∀ (es : List Expr) {texts : List String}, (∀ e ∈ es, e.Plain) →
    exprs es = .ok texts → (", ".intercalate texts).toList = (readings es).text
  | [], texts, _, h => by
      rw [exprs] at h
      cases h
      rfl
  | [e], texts, hplain, h => by
      rw [exprs] at h
      obtain ⟨first, hfirst, h⟩ := bind_eq_ok h
      cases h
      have hfirst := toList_expr e (hplain e List.mem_cons_self) hfirst
      simp [readings, Items.text, Items.tailText, hfirst]
  | e :: e' :: rest, texts, hplain, h => by
      rw [exprs] at h
      obtain ⟨first, hfirst, h⟩ := bind_eq_ok h
      obtain ⟨more, hmore, h⟩ := bind_eq_ok h
      cases h
      have hfirst := toList_expr e (hplain e List.mem_cons_self) hfirst
      have hrest := toList_exprs (e' :: rest) (fun d hd => hplain d (List.mem_cons_of_mem e hd)) hmore
      -- the texts of a list that is not empty are not empty either
      rw [exprs] at hmore
      obtain ⟨second, -, hmore⟩ := bind_eq_ok hmore
      obtain ⟨more', -, hmore⟩ := bind_eq_ok hmore
      cases hmore
      rw [String.toList_intercalate, List.map_cons] at hrest
      rw [String.toList_intercalate, List.map_cons, List.map_cons, List.intercalate_cons_cons, hrest,
        hfirst]
      simp [readings, Items.text, Items.tailText]

end

/-! ## Chains of plain expressions -/

theorem Suffixes.spelled_append : ∀ s t : Suffixes, s.Spelled → t.Spelled → (s.append t).Spelled
  | .done, _, _, ht => ht
  | .index _ more, t, h, ht => ⟨h.1, spelled_append more t h.2 ht⟩
  | .arguments _ more, t, h, ht => ⟨h.1, spelled_append more t h.2 ht⟩
  | .method _ _ more, t, h, ht => ⟨h.1, h.2.1, spelled_append more t h.2.2 ht⟩

theorem Operand.spelled_extend : ∀ (o : Operand) (s : Suffixes), o.Spelled → s.Spelled →
    (o.extend s).Spelled
  | .plain _ suffixes, s, h, hs => ⟨h.1, suffixes.spelled_append s h.2 hs⟩
  | .signed _ operand, s, h, hs => spelled_extend operand s h hs

theorem Chain.spelled_extend : ∀ (k : Chain) (s : Suffixes), k.Spelled → s.Spelled →
    (k.extend s).Spelled
  | .last operand, s, h, hs => operand.spelled_extend s h hs
  | .infixed _ _ rest, s, h, hs => ⟨h.1, spelled_extend rest s h.2 hs⟩

theorem Chain.spelled_sign (op : UnaryOp) {k : Chain} (h : k.Spelled) : (k.sign op).Spelled := by
  cases k with
  | last operand => exact h
  | infixed operand op' rest => exact h

theorem Chain.spelled_join : ∀ (k : Chain) (op : BinaryOp) (k' : Chain), k.Spelled → k'.Spelled →
    (k.join op k').Spelled
  | .last _, _, _, h, h' => ⟨h, h'⟩
  | .infixed _ _ rest, op, k', h, h' => ⟨h.1, spelled_join rest op k' h.2 h'⟩

theorem spelled_enclose (e : Expr) {k : Chain} (h : k.Spelled) : (enclose e k).Spelled := by
  rw [enclose]
  split
  · exact ⟨h, trivial⟩
  · exact h

theorem isWord_toDigits (n : Nat) : IsWord (Nat.toDigits 10 n) := by
  refine ⟨Nat.toDigits_ne_nil, fun c hc => ?_⟩
  have hdigit := Nat.isDigit_of_mem_toDigits (by decide) (by decide) hc
  have hdecimal : isDecimal c = true := by
    simp only [Char.isDigit, Bool.and_eq_true, decide_eq_true_eq] at hdigit
    simp only [isDecimal, Bool.and_eq_true, decide_eq_true_eq]
    exact hdigit
  rw [isNamePart, hdecimal, Bool.or_true]

theorem spelled_literalReading {v : Literal} (h : (Expr.literal v).PlainNode) :
    (literalReading v).Spelled := by
  cases v with
  | int z =>
      rw [literalReading]
      split
      · exact ⟨isWord_toDigits _, trivial⟩
      · exact ⟨isWord_toDigits _, trivial⟩
  | bool b =>
      have hwords : ∀ b : Bool, IsWord (if b then "true" else "false").toList := by decide
      exact ⟨hwords b, trivial⟩
  | text t => exact ⟨Text.lt_of_mem_units h, trivial⟩

mutual

/-- The chain of a plain expression is made of words and 16-bit units. -/
theorem spelled_reading : ∀ e : Expr, e.Plain → (reading e).Spelled
  | .identifier name, h => ⟨Expr.everywhere_identifier.mp h, trivial⟩
  | .literal v, h => spelled_literalReading (Expr.everywhere_literal.mp h)
  | .binary op l r, h => by
      obtain ⟨-, hl, hr⟩ := Expr.everywhere_binary.mp h
      exact Chain.spelled_join _ op _ (spelled_enclose l (spelled_reading l hl))
        (spelled_enclose r (spelled_reading r hr))
  | .unary op e, h =>
      Chain.spelled_sign op (spelled_enclose e (spelled_reading e (Expr.everywhere_unary.mp h).2))
  | .index object position, h => by
      obtain ⟨-, ho, hp⟩ := Expr.everywhere_index.mp h
      exact Chain.spelled_extend _ _ (spelled_reading object ho) ⟨spelled_reading position hp, trivial⟩
  | .call callee none arguments, h => by
      obtain ⟨-, hc, ha⟩ := Expr.everywhere_call.mp h
      exact Chain.spelled_extend _ _ (spelled_reading callee hc)
        ⟨spelled_readings arguments ha, trivial⟩
  | .call callee (some name) arguments, h => by
      obtain ⟨hname, hc, ha⟩ := Expr.everywhere_call.mp h
      exact Chain.spelled_extend _ _ (spelled_enclose callee (spelled_reading callee hc))
        ⟨hname, spelled_readings arguments ha, trivial⟩
  | .array elements, h => ⟨spelled_readings elements (Expr.everywhere_array.mp h).2, trivial⟩
  | .conditional condition consequent alternate, h => by
      obtain ⟨-, hc, ht, he⟩ := Expr.everywhere_conditional.mp h
      exact ⟨⟨spelled_reading condition hc, spelled_reading consequent ht,
        spelled_reading alternate he⟩, trivial⟩
  | .otherBinary op l r, h => (Expr.everywhere_iff.mp h).1.elim
  | .otherUnary op e, h => (Expr.everywhere_iff.mp h).1.elim
  | .foreign node, h => (Expr.everywhere_iff.mp h).1.elim

theorem spelled_readings : ∀ es : List Expr, (∀ e ∈ es, e.Plain) → (readings es).Spelled
  | [], _ => trivial
  | e :: rest, h =>
      ⟨spelled_reading e (h e List.mem_cons_self),
        spelled_readings rest fun d hd => h d (List.mem_cons_of_mem e hd)⟩

end

/-- Plain expressions have the same text exactly if they have the same chain. -/
theorem text_eq_iff {e e' : Expr} {s s' : String} (he : e.Plain) (he' : e'.Plain)
    (hs : expr e = .ok s) (hs' : expr e' = .ok s') : s = s' ↔ reading e = reading e' := by
  have htext : s.toList = (reading e).text := toList_expr e he hs
  have htext' : s'.toList = (reading e').text := toList_expr e' he' hs'
  constructor
  · rintro rfl
    have heq : (reading e).text ++ [] = (reading e').text ++ [] := by rw [← htext, htext']
    exact (Chain.text_inj _ _ (spelled_reading e he) (spelled_reading e' he') .nil .nil heq).1
  · intro h
    rw [← String.toList_inj, htext, htext', h]

end ArrowCircuit.Noir
