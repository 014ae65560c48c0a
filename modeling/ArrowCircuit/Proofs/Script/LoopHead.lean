import ArrowCircuit.Proofs.Outcome
import ArrowCircuit.Script.Elaboration

/-!
# Loop heads

What a loop head has to look like.  It declares the variable, compares it with a bound and adds one to
it, and the names in the comparison and the update are, apart from their mark, that of the variable
without a second mark.  `head_eq_ok_iff` says that these are exactly the heads that are accepted.
-/

namespace ArrowCircuit.Script

/-- The term is a name that, without its mark, is `name`. -/
def Term.RefersTo (name : String) (term : Term) : Prop :=
  ∃ line spelled, term = .ident line spelled ∧ (stripMut spelled).1 = name

/-- The updates that add one to what `name` names. -/
inductive AddsOne (name : String) : Term → Prop
  | step {line : Nat} {target : Term} (h : target.RefersTo name) : AddsOne name (.step line .up target)
  | assign {line sumLine oneLine : Nat} {target left : Term} {digits : List Char}
      (htarget : target.RefersTo name) (hleft : left.RefersTo name) (hone : tokenValue digits = .ok 1) :
      AddsOne name (.assign line .plain target (.binary sumLine .add left (.number oneLine digits)))

/-- What stands between the parentheses of a loop. -/
structure LoopSpelling where
  line : Nat
  init : LoopInit
  test : Option LoopTest
  update : Option Term

namespace LoopSpelling

/-- What the head says, or why it is refused. -/
def head (loop : LoopSpelling) : Result LoopHead :=
  loopHead loop.line loop.init loop.test loop.update

/-- The loop declares the variable of a head without its mark, compares it with the bound and adds one to
it, and refers to it as `name`. -/
inductive Counts (name : String) : LoopSpelling → LoopHead → Prop
  | intro {line initLine testLine opLine : Nat} {spelled : String} {first left last update : Term}
      {inclusive : Bool} (hleft : left.RefersTo name) (hupdate : AddsOne name update) :
      Counts name ⟨line, .declaration ⟨initLine, .name spelled, some first⟩,
          some ⟨testLine, .binary opLine (if inclusive then .le else .lt) left last⟩, some update⟩
        ⟨(stripMut spelled).1, first, last, inclusive⟩

end LoopSpelling

section

variable {counter name : String} {line : Nat} {term : Term}

theorem Term.isVariable_eq_true_iff :
    term.isVariable counter = true ↔ term.RefersTo (stripMut counter).1 := by
  unfold Term.isVariable
  split
  · rename_i identLine spelled
    rw [beq_iff_eq]
    constructor
    · exact fun h => ⟨identLine, spelled, rfl, h⟩
    · rintro ⟨_, _, heq, h⟩
      cases heq
      exact h
  · rename_i hident
    refine ⟨fun h => absurd h Bool.false_ne_true, ?_⟩
    rintro ⟨identLine, spelled, rfl, -⟩
    exact absurd rfl (hident identLine spelled)

theorem Term.RefersTo.unique {other : String} (h : term.RefersTo name) (h' : term.RefersTo other) :
    name = other := by
  obtain ⟨_, _, rfl, rfl⟩ := h
  obtain ⟨_, _, heq, rfl⟩ := h'
  cases heq
  rfl

theorem isIncrement_eq_true_iff :
    isIncrement counter term = .ok true ↔ AddsOne (stripMut counter).1 term := by
  unfold isIncrement
  split
  · rw [Except.ok.injEq, Term.isVariable_eq_true_iff]
    constructor
    · exact .step
    · rintro ⟨h⟩
      exact h
  · rename_i left digits
    split
    · rename_i hnames
      rw [Bool.and_eq_true, Term.isVariable_eq_true_iff, Term.isVariable_eq_true_iff] at hnames
      constructor
      · intro h
        obtain ⟨value, hvalue, h⟩ := bind_eq_ok h
        have hone : value = 1 := eq_of_beq (Except.ok.inj h)
        exact .assign hnames.1 hnames.2 (hone ▸ hvalue)
      · rintro (_ | ⟨-, -, hone⟩)
        rw [hone]
        rfl
    · rename_i hnames
      refine ⟨fun h => absurd (Except.ok.inj h) Bool.false_ne_true, ?_⟩
      rintro (_ | ⟨htarget, hleft, -⟩)
      refine absurd ?_ hnames
      rw [Bool.and_eq_true, Term.isVariable_eq_true_iff, Term.isVariable_eq_true_iff]
      exact ⟨htarget, hleft⟩
  · -- no other term is taken for an update that adds one
    rename_i hstep hassign
    refine ⟨fun h => absurd (Except.ok.inj h) Bool.false_ne_true, ?_⟩
    rintro (h | h)
    · exact absurd rfl (hstep _ _)
    · exact absurd rfl (hassign _ _ _ _ _ _)

theorem loopTest_eq_ok_iff {test : Option LoopTest} {last : Term} {inclusive : Bool} :
    loopTest counter line test = .ok (last, inclusive) ↔
      ∃ testLine opLine left, left.RefersTo (stripMut counter).1 ∧
        test = some ⟨testLine, .binary opLine (if inclusive then .le else .lt) left last⟩ := by
  constructor
  · intro h
    unfold loopTest at h
    split at h
    · cases h
    · rename_i testLine opLine op left right
      split at h
      · split at h
        · rename_i hleft
          cases h
          exact ⟨testLine, opLine, left, Term.isVariable_eq_true_iff.mp hleft, rfl⟩
        · cases h
      · split at h
        · rename_i hleft
          cases h
          exact ⟨testLine, opLine, left, Term.isVariable_eq_true_iff.mp hleft, rfl⟩
        · cases h
      all_goals cases h
    · cases h
  · rintro ⟨testLine, opLine, left, hleft, rfl⟩
    have hvariable := Term.isVariable_eq_true_iff.mpr hleft
    cases inclusive <;> simp [loopTest, hvariable]

end

namespace LoopSpelling

variable {loop : LoopSpelling} {head : LoopHead}

/-- **Heads.** A head is accepted exactly if the loop counts its variable and refers to it by the name
that is left without a second mark. -/
theorem head_eq_ok_iff : loop.head = .ok head ↔ loop.Counts (stripMut head.counter).1 head := by
  constructor
  · intro h
    obtain ⟨line, init, test, update⟩ := loop
    cases init with
    | absent => cases h
    | expression term => cases h
    | declaration d =>
        obtain ⟨initLine, binder, initial⟩ := d
        obtain ⟨⟨counter, isMutable, start⟩, hsplit, h⟩ := bind_eq_ok h
        cases binder with
        | pattern => cases hsplit
        | name spelled =>
            cases hsplit
            cases initial with
            | none => cases h
            | some first =>
                obtain ⟨⟨last, inclusive⟩, htest, h⟩ := bind_eq_ok h
                obtain ⟨testLine, opLine, left, hleft, rfl⟩ := loopTest_eq_ok_iff.mp htest
                cases update with
                | none => cases h
                | some update =>
                    obtain ⟨isStep, hstep, h⟩ := bind_eq_ok h
                    cases isStep with
                    | false => cases h
                    | true =>
                        cases h
                        exact .intro hleft (isIncrement_eq_true_iff.mp hstep)
  · rintro (@⟨line, initLine, testLine, opLine, spelled, first, left, last, update, inclusive, hleft,
      hupdate⟩)
    have htest : loopTest (stripMut spelled).1 line (some ⟨testLine, .binary opLine
        (if inclusive then .le else .lt) left last⟩) = .ok (last, inclusive) :=
      loopTest_eq_ok_iff.mpr ⟨testLine, opLine, left, hleft, rfl⟩
    have hstep := isIncrement_eq_true_iff.mpr hupdate
    simp only [LoopSpelling.head, loopHead, Declarator.split, bind, Except.bind, htest, hstep]
    rfl

end LoopSpelling

end ArrowCircuit.Script
