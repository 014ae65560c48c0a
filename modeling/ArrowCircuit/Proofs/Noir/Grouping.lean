import ArrowCircuit.Proofs.Noir.Reading
import Mathlib.Data.List.Permutation

/-!
# Grouping in the text of expressions

The text of an expression does not always tell the expression: `(a + b)[0]` is printed like `a + b[0]`,
`(-a).len()` like `-a.len()`, and the identifier `5`, which a script can spell `mut_5`, like the number.
Where no element, call or method hangs on an operation or a sign, no identifier looks like a literal and
no text keeps the halves of a pair apart, the expression can be read back from its chain, and so the text
tells it.
-/

namespace ArrowCircuit.Noir

open Script

/-! ## Reading an expression back -/

/-- The expression of a word: a literal if it looks like one. -/
def wordExpr (cs : List Char) : Expr :=
  if cs = "true".toList then .literal (.bool true)
  else if cs = "false".toList then .literal (.bool false)
  else if cs = Nat.toDigits 10 (Nat.ofDigitChars 10 cs 0) then
    .literal (.int (Nat.ofDigitChars 10 cs 0))
  else .identifier (String.ofList cs)

/-- An expression behind a sign. -/
def signExpr : UnaryOp → Expr → Expr
  | .neg, e => negate e
  | .not, e => .unary .not e

mutual

/-- The expression that the start of an operand shows. -/
def Core.toExpr : Core → Expr
  | .word cs => wordExpr cs
  | .quoted units => .literal (.text (Text.join units))
  | .array items => .array items.toExprs
  | .choice condition consequent alternate =>
    .conditional condition.toExpr consequent.toExpr alternate.toExpr
  | .group inner => inner.toExpr

/-- Applies what follows the start of an operand. -/
def Suffixes.apply : Suffixes → Expr → Expr
  | .done, e => e
  | .index position more, e => more.apply (.index e position.toExpr)
  | .arguments items more, e => more.apply (.call e none items.toExprs)
  | .method name items more, e => more.apply (.call e (some (String.ofList name)) items.toExprs)

/-- The expression that an operand shows. -/
def Operand.toExpr : Operand → Expr
  | .plain core suffixes => suffixes.apply core.toExpr
  | .signed op operand => signExpr op operand.toExpr

/-- The expression that a chain shows, if operators group to the right. -/
def Chain.toExpr : Chain → Expr
  | .last operand => operand.toExpr
  | .infixed operand op rest => .binary op operand.toExpr rest.toExpr

/-- The expressions between commas. -/
def Items.toExprs : Items → List Expr
  | .none => []
  | .cons first rest => first.toExpr :: rest.toExprs

end

/-! ## Legible expressions -/

/-- Whether the text of an expression starts with a sign of its own. -/
def isSigned : Expr → Bool
  | .unary .. | .otherUnary .. => true
  | .literal (.int z) => z < 0
  | _ => false

/-- Whether an expression is an operation between two operands. -/
def isOperation : Expr → Bool
  | .binary .. | .otherBinary .. => true
  | _ => false

/-- A node whose text shows it: what hangs on an operand hangs on no operation and no sign, an identifier
does not look like a literal, and a text keeps no pair apart.  Before a method an operation is put in
parentheses. -/
def LegibleNode : Expr → Prop
  | .identifier name => name ≠ "true" ∧ name ≠ "false" ∧ ∀ n, name ≠ Numeral.decimalNat n
  | .literal (.text t) => Text.Joined t
  | .index object _ => isOperation object = false ∧ isSigned object = false
  | .call callee none _ => isOperation callee = false ∧ isSigned callee = false
  | .call callee (some _) _ => isSigned callee = false
  | _ => True

/-- An expression all of whose nodes are shown by its text. -/
def Legible (e : Expr) : Prop := e.Everywhere LegibleNode

/-- A chain of one operand, which has a sign only if the expression starts with one. -/
def Single (e : Expr) (k : Chain) : Prop :=
  ∃ operand, k = .last operand ∧ (isSigned e = false → ∃ core suffixes, operand = .plain core suffixes)

theorem single_chain (e : Expr) (k : Core) : Single e k.chain :=
  ⟨_, rfl, fun _ => ⟨_, _, rfl⟩⟩

theorem single_enclose {e : Expr} {k : Chain} (h : isOperation e = false → Single e k) :
    Single e (enclose e k) := by
  rw [enclose]
  split
  · exact single_chain e _
  · rename_i hcompound
    refine h ?_
    cases e with
    | binary op l r => exact absurd rfl hcompound
    | otherBinary op l r => exact absurd rfl hcompound
    | _ => rfl

theorem single_extend {e e' : Expr} {k : Chain} (h : Single e k) (he : isSigned e = false)
    (s : Suffixes) : Single e' (k.extend s) := by
  obtain ⟨operand, rfl, hplain⟩ := h
  obtain ⟨core, suffixes, rfl⟩ := hplain he
  exact ⟨_, rfl, fun _ => ⟨_, _, rfl⟩⟩

/-- The chain of a legible expression that is no operation has one operand. -/
theorem single_reading : ∀ e : Expr, Legible e → isOperation e = false → Single e (reading e)
  | .identifier name, _, _ => single_chain _ _
  | .literal (.int z), _, _ => by
      rw [reading, literalReading]
      split
      · rename_i hz
        refine ⟨_, rfl, fun hsigned => ?_⟩
        rw [isSigned, decide_eq_false_iff_not] at hsigned
        exact absurd hz hsigned
      · exact single_chain _ _
  | .literal (.bool b), _, _ => single_chain _ _
  | .literal (.text t), _, _ => single_chain _ _
  | .unary op e, h, _ => by
      obtain ⟨operand, hk, -⟩ := single_enclose (single_reading e (Expr.everywhere_unary.mp h).2)
      rw [reading, hk]
      refine ⟨_, rfl, fun hsigned => ?_⟩
      cases hsigned
  | .index object position, h, _ => by
      obtain ⟨⟨hoperation, hsigned⟩, ho, -⟩ := Expr.everywhere_index.mp h
      exact single_extend (single_reading object ho hoperation) hsigned _
  | .call callee none arguments, h, _ => by
      obtain ⟨⟨hoperation, hsigned⟩, hc, -⟩ := Expr.everywhere_call.mp h
      exact single_extend (single_reading callee hc hoperation) hsigned _
  | .call callee (some name) arguments, h, _ => by
      obtain ⟨hsigned, hc, -⟩ := Expr.everywhere_call.mp h
      exact single_extend (single_enclose (single_reading callee hc)) hsigned _
  | .array elements, _, _ => single_chain _ _
  | .conditional condition consequent alternate, _, _ => single_chain _ _
  | .foreign node, _, _ => single_chain _ _
  | .otherUnary op e, _, _ => single_chain _ _

/-! ## Reading back -/

/-- A numeral holds digits only. -/
theorem toDigits_ne {cs : List Char} {c : Char} (hc : c ∈ cs) (h : c.isDigit = false) (n : Nat) :
    Nat.toDigits 10 n ≠ cs := by
  rintro rfl
  rw [Nat.isDigit_of_mem_toDigits (by decide) (by decide) hc] at h
  cases h

theorem wordExpr_toDigits (n : Nat) : wordExpr (Nat.toDigits 10 n) = .literal (.int n) := by
  have htrue : Nat.toDigits 10 n ≠ "true".toList := toDigits_ne (c := 't') (by decide) (by decide) n
  have hfalse : Nat.toDigits 10 n ≠ "false".toList := toDigits_ne (c := 'f') (by decide) (by decide) n
  have hvalue : Nat.ofDigitChars 10 (Nat.toDigits 10 n) 0 = n :=
    Nat.ofDigitChars_toDigits (by decide) (by decide)
  rw [wordExpr, if_neg htrue, if_neg hfalse, hvalue, if_pos rfl]

theorem wordExpr_of_legible {name : String} (h : LegibleNode (.identifier name)) :
    wordExpr name.toList = .identifier name := by
  obtain ⟨htrue, hfalse, hdecimal⟩ := h
  have hdigits : name.toList ≠ Nat.toDigits 10 (Nat.ofDigitChars 10 name.toList 0) := by
    intro heq
    refine hdecimal (Nat.ofDigitChars 10 name.toList 0) ?_
    rw [Numeral.decimalNat, ← heq, String.ofList_toList]
  rw [wordExpr, if_neg (mt String.toList_inj.mp htrue), if_neg (mt String.toList_inj.mp hfalse),
    if_neg hdigits, String.ofList_toList]

theorem toExpr_literalReading {v : Literal} (hplain : (Expr.literal v).PlainNode)
    (h : LegibleNode (.literal v)) : (literalReading v).toExpr = .literal v := by
  cases v with
  | int z =>
      rw [literalReading]
      split
      · rename_i hz
        change negate (wordExpr (Nat.toDigits 10 z.natAbs)) = _
        rw [wordExpr_toDigits, negate]
        congr 2
        omega
      · rename_i hz
        change wordExpr (Nat.toDigits 10 z.natAbs) = _
        rw [wordExpr_toDigits]
        congr 2
        omega
  | bool b => cases b <;> rfl
  | text t =>
      change Expr.literal (.text (Text.join (Text.units t))) = _
      rw [Text.join_units hplain h]

theorem toExpr_enclose (e : Expr) (k : Chain) : (enclose e k).toExpr = k.toExpr := by
  rw [enclose]
  split <;> rfl

theorem Suffixes.apply_append : ∀ (s t : Suffixes) (e : Expr), (s.append t).apply e = t.apply (s.apply e)
  | .done, _, _ => rfl
  | .index _ more, t, _ => apply_append more t _
  | .arguments _ more, t, _ => apply_append more t _
  | .method _ _ more, t, _ => apply_append more t _

theorem toExpr_join {e : Expr} {k : Chain} (h : Single e k) (op : BinaryOp) (k' : Chain) :
    (k.join op k').toExpr = .binary op k.toExpr k'.toExpr := by
  obtain ⟨operand, rfl, -⟩ := h
  rfl

theorem toExpr_sign {e : Expr} {k : Chain} (h : Single e k) (op : UnaryOp) :
    (k.sign op).toExpr = signExpr op k.toExpr := by
  obtain ⟨operand, rfl, -⟩ := h
  rfl

theorem toExpr_extend {e : Expr} {k : Chain} (h : Single e k) (he : isSigned e = false)
    (s : Suffixes) : (k.extend s).toExpr = s.apply k.toExpr := by
  obtain ⟨operand, rfl, hplain⟩ := h
  obtain ⟨core, suffixes, rfl⟩ := hplain he
  exact suffixes.apply_append s core.toExpr

theorem signExpr_of_plain {op : UnaryOp} {e : Expr} (h : (Expr.unary op e).PlainNode) :
    signExpr op e = .unary op e := by
  cases op with
  | not => rfl
  | neg =>
      rw [signExpr]
      unfold negate
      split
      · exact h.elim
      · rfl

mutual

/-- **Reading back.** A legible plain expression is what its chain shows. -/
theorem toExpr_reading : ∀ e : Expr, e.Plain → Legible e → (reading e).toExpr = e
  | .identifier name, _, h => wordExpr_of_legible (Expr.everywhere_identifier.mp h)
  | .literal v, hplain, h =>
      toExpr_literalReading (Expr.everywhere_literal.mp hplain) (Expr.everywhere_literal.mp h)
  | .binary op l r, hplain, h => by
      obtain ⟨-, hpl, hpr⟩ := Expr.everywhere_binary.mp hplain
      obtain ⟨-, hl, hr⟩ := Expr.everywhere_binary.mp h
      rw [reading, toExpr_join (single_enclose (single_reading l hl)), toExpr_enclose, toExpr_enclose,
        toExpr_reading l hpl hl, toExpr_reading r hpr hr]
  | .unary op e, hplain, h => by
      obtain ⟨hnode, hpe⟩ := Expr.everywhere_unary.mp hplain
      obtain ⟨-, he⟩ := Expr.everywhere_unary.mp h
      rw [reading, toExpr_sign (single_enclose (single_reading e he)), toExpr_enclose,
        toExpr_reading e hpe he, signExpr_of_plain hnode]
  | .index object position, hplain, h => by
      obtain ⟨-, hpo, hpp⟩ := Expr.everywhere_index.mp hplain
      obtain ⟨⟨hoperation, hsigned⟩, ho, hp⟩ := Expr.everywhere_index.mp h
      rw [reading, toExpr_extend (single_reading object ho hoperation) hsigned, Suffixes.apply,
        Suffixes.apply, toExpr_reading object hpo ho, toExpr_reading position hpp hp]
  | .call callee none arguments, hplain, h => by
      obtain ⟨-, hpc, hpa⟩ := Expr.everywhere_call.mp hplain
      obtain ⟨⟨hoperation, hsigned⟩, hc, ha⟩ := Expr.everywhere_call.mp h
      rw [reading, toExpr_extend (single_reading callee hc hoperation) hsigned, Suffixes.apply,
        Suffixes.apply, toExpr_reading callee hpc hc, toExprs_readings arguments hpa ha]
  | .call callee (some name) arguments, hplain, h => by
      obtain ⟨-, hpc, hpa⟩ := Expr.everywhere_call.mp hplain
      obtain ⟨hsigned, hc, ha⟩ := Expr.everywhere_call.mp h
      rw [reading, toExpr_extend (single_enclose (single_reading callee hc)) hsigned, Suffixes.apply,
        Suffixes.apply, toExpr_enclose, toExpr_reading callee hpc hc, String.ofList_toList,
        toExprs_readings arguments hpa ha]
  | .array elements, hplain, h => by
      obtain ⟨-, hpe⟩ := Expr.everywhere_array.mp hplain
      obtain ⟨-, he⟩ := Expr.everywhere_array.mp h
      change Expr.array (readings elements).toExprs = _
      rw [toExprs_readings elements hpe he]
  | .conditional condition consequent alternate, hplain, h => by
      obtain ⟨-, hpc, hpt, hpe⟩ := Expr.everywhere_conditional.mp hplain
      obtain ⟨-, hc, ht, he⟩ := Expr.everywhere_conditional.mp h
      change Expr.conditional (reading condition).toExpr (reading consequent).toExpr
        (reading alternate).toExpr = _
      rw [toExpr_reading condition hpc hc, toExpr_reading consequent hpt ht,
        toExpr_reading alternate hpe he]
  | .otherBinary op l r, hplain, _ => (Expr.everywhere_iff.mp hplain).1.elim
  | .otherUnary op e, hplain, _ => (Expr.everywhere_iff.mp hplain).1.elim
  | .foreign node, hplain, _ => (Expr.everywhere_iff.mp hplain).1.elim

theorem toExprs_readings : ∀ es : List Expr, (∀ e ∈ es, e.Plain) → (∀ e ∈ es, Legible e) →
    (readings es).toExprs = es
  | [], _, _ => rfl
  | e :: rest, hplain, h => by
      obtain ⟨hplain, hplainRest⟩ := List.forall_mem_cons.mp hplain
      obtain ⟨h, hrest⟩ := List.forall_mem_cons.mp h
      rw [readings, Items.toExprs, toExpr_reading e hplain h,
        toExprs_readings rest hplainRest hrest]

end

/-! ## What the text tells -/

/-- The lost grouping: an element of an operation is printed like an operation on an element. -/
theorem expr_index_binary (op : BinaryOp) (l : Expr) {r : Expr} (hr : isCompound r = false)
    (position : Expr) :
    expr (.index (.binary op l r) position) = expr (.binary op l (.index r position)) := by
  have hindex : isCompound (.index r position) = false := rfl
  rw [expr, expr, expr, expr]
  cases expr l with
  | error f => rfl
  | ok left =>
      cases expr r with
      | error f => rfl
      | ok right =>
          cases expr position with
          | error f => rfl
          | ok text =>
              simp [bind, Except.bind, pure, Except.pure, parenthesize, hr, hindex, String.append_assoc]

/-- **Grouping.** The texts of two expressions from scripts are equal exactly if they show the same chain
of operands; and an expression on whose operations and signs nothing hangs, and whose words and texts look
like nothing else, is told by its text. -/
theorem text_eq_iff_of_fromScript {e e' : Expr} {s s' : String} (he : e.FromScript)
    (he' : e'.FromScript) (hs : expr e = .ok s) (hs' : expr e' = .ok s') :
    (s = s' ↔ reading e = reading e') ∧ (Legible e → Legible e' → s = s' → e = e') := by
  have hiff : s = s' ↔ reading e = reading e' := text_eq_iff he.plain he'.plain hs hs'
  refine ⟨hiff, fun hlegible hlegible' h => ?_⟩
  calc
    e = (reading e).toExpr := (toExpr_reading e he.plain hlegible).symm
    _ = (reading e').toExpr := by rw [hiff.mp h]
    _ = e' := toExpr_reading e' he'.plain hlegible'

/-- `b[0]` -/
def element : Expr := .index (.identifier "b") (.literal (.int 0))

/-- `a + b[0]` -/
def elementSum : Expr := .binary .add (.identifier "a") element

/-- `(a + b)[0]` -/
def sumElement : Expr :=
  .index (.binary .add (.identifier "a") (.identifier "b")) (.literal (.int 0))

/-- The element of a sum beside the sum with an element. -/
def elementScript : String := "([e], [a, b]) => (a + b)[0] == a + b[0]"

/-- What the grammar makes of `elementScript`. -/
def elementDefinition : Script.Definition where
  parameters := .listed 1 [.pattern 1 [(1, "e")], .pattern 1 [(1, "a"), (1, "b")]]
  body := .expression (.binary 1 .eq
    (.index 1 (.binary 1 .add (.ident 1 "a") (.ident 1 "b")) (.number 1 ['0']))
    (.binary 1 .add (.ident 1 "a") (.index 1 (.ident 1 "b") (.number 1 ['0']))))

/-- The circuit of `elementScript`. -/
def elementCircuit : Circuit where
  publicParams := [⟨"e", 0⟩]
  privateParams := [⟨"a", 0⟩, ⟨"b", 1⟩]
  statements := [.assert (.binary .eq sumElement elementSum) none]

theorem fromScript_element :
    sumElement.FromScript ∧ elementSum.FromScript ∧ element.FromScript := by
  have hdefinition : Script.Definition.parse elementScript.toList = .ok elementDefinition := by cbv
  have hparse : Circuit.parse elementScript = .ok elementCircuit := by
    rw [Circuit.parse, hdefinition]
    rfl
  have hpart : ∀ {e : Expr}, e.Part (.binary .eq sumElement elementSum) → e.FromScript :=
    fun h => ⟨elementScript, elementCircuit, hparse, _, List.mem_singleton_self _, h⟩
  have hsum : elementSum.Part (.binary .eq sumElement elementSum) :=
    .inside (List.mem_cons_of_mem _ (List.mem_singleton_self _)) .self
  refine ⟨hpart (.inside List.mem_cons_self .self), hpart hsum, hpart ?_⟩
  exact .trans (.inside (List.mem_cons_of_mem _ (List.mem_singleton_self _)) .self) hsum

/-- A name with a letter looks like no number. -/
theorem legible_identifier {name : String} {c : Char} (hc : c ∈ name.toList) (h : c.isDigit = false)
    (htrue : name ≠ "true") (hfalse : name ≠ "false") : Legible (.identifier name) := by
  refine Expr.everywhere_identifier.mpr ⟨htrue, hfalse, fun n hn => ?_⟩
  rw [hn, Numeral.decimalNat, String.toList_ofList] at hc
  exact toDigits_ne hc h n rfl

theorem legible_element : Legible elementSum ∧ Legible element := by
  have ha : Legible (.identifier "a") :=
    legible_identifier (c := 'a') (by decide) (by decide) (by decide) (by decide)
  have hb : Legible (.identifier "b") :=
    legible_identifier (c := 'b') (by decide) (by decide) (by decide) (by decide)
  have hzero : Legible (.literal (.int 0)) := Expr.everywhere_literal.mpr trivial
  have helement : Legible element := Expr.everywhere_index.mpr ⟨⟨rfl, rfl⟩, hb, hzero⟩
  exact ⟨Expr.everywhere_binary.mpr ⟨trivial, ha, helement⟩, helement⟩

theorem literal_zero : literal (.int 0) = .ok "0" := by
  unfold literal Numeral.decimal?
  generalize Numeral.digitLimit = limit
  have hbound : (0 : Int).natAbs < Nat.pow 10 limit := Nat.pow_pos (by decide)
  dsimp only
  rw [if_pos hbound]
  rfl

theorem text_eq_iff_of_fromScript_element :
    (sumElement.FromScript ∧ elementSum.FromScript ∧ element.FromScript) ∧
      (expr sumElement = .ok "a + b[0]" ∧ expr elementSum = .ok "a + b[0]" ∧
        expr element = .ok "b[0]") ∧
      (reading sumElement = reading elementSum ∧ sumElement ≠ elementSum) ∧
      Legible elementSum ∧ Legible element ∧ ("a + b[0]" = "b[0]" → elementSum = element) := by
  obtain ⟨hsum, helementSum, helement⟩ := fromScript_element
  obtain ⟨hlegible, hlegible'⟩ := legible_element
  have helementText : expr element = .ok "b[0]" := by
    rw [element, expr, expr, expr, literal_zero]
    rfl
  have helementSumText : expr elementSum = .ok "a + b[0]" := by
    rw [elementSum, expr, expr, helementText]
    rfl
  have hsumText : expr sumElement = .ok "a + b[0]" :=
    (expr_index_binary .add (.identifier "a") rfl (.literal (.int 0))).trans helementSumText
  refine ⟨⟨hsum, helementSum, helement⟩, ⟨hsumText, helementSumText, helementText⟩, ⟨?_, ?_⟩,
    hlegible, hlegible', ?_⟩
  · exact (text_eq_iff_of_fromScript hsum helementSum hsumText helementSumText).1.mp rfl
  · intro h
    cases h
  · exact (text_eq_iff_of_fromScript helementSum helement helementSumText helementText).2
      hlegible hlegible'

end ArrowCircuit.Noir
