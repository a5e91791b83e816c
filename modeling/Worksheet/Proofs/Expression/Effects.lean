import Worksheet.Proofs.Expression.Leaves
import Worksheet.Proofs.Expression.Nests

/-! # Effects

An evaluation goes through the leaves of its text from left to right and takes their steps, up to
the first leaf that has no value; then the failure is that of this leaf. Names are neither added nor
removed on the way. So which leaf is the first to fail is decided by the names before.
-/
namespace Worksheet.Expression
open Text

section TextOrder

/-- Texts that stand in a text one after the other. -/
inductive InTextOrder : List Text → Text → Prop
  | nil (s : Text) : InTextOrder [] s
  | cons {ts : List Text} {s : Text} (gap t : Text) (h : InTextOrder ts s) :
      InTextOrder (t :: ts) (gap ++ (t ++ s))

namespace InTextOrder

variable {ts ts' : List Text} {s u v : Text}

theorem prepend (gap : Text) (h : InTextOrder ts s) : InTextOrder ts (gap ++ s) := by
  cases h with
  | nil => exact nil _
  | cons first t h =>
    rw [← List.append_assoc]
    exact cons (gap ++ first) t h

theorem append (hu : InTextOrder ts u) (hv : InTextOrder ts' v) :
    InTextOrder (ts ++ ts') (u ++ v) := by
  induction hu with
  | nil s => exact hv.prepend s
  | cons gap t h ih =>
    rw [List.append_assoc, List.append_assoc]
    exact cons gap t ih

end InTextOrder

theorem inTextOrder_leaves (s : Text) : InTextOrder (leaves s) s := by
  induction hn : s.length using Nat.strongRecOn generalizing s with
  | _ n ih =>
    cases hs : split? s with
    | some p =>
      obtain ⟨hu, hv⟩ := length_lt_of_split? hs
      have hleft := ih p.left.length (hn ▸ hu) p.left rfl
      have hright := ih p.right.length (hn ▸ hv) p.right rfl
      rw [leaves_of_split hs, split?_eq hs]
      exact hleft.append (hright.prepend [p.op.char])
    | none =>
      by_cases ho : ∃ rest, Operand.ofTerm (trim s) = .negated rest
      · obtain ⟨rest, ho⟩ := ho
        obtain ⟨b, b', -, -, hb⟩ := exists_trim s
        have hrest := ih rest.length (hn ▸ length_lt_of_ofTerm_negated ho) rest rfl
        have hterm := ((hrest.prepend ['-']).prepend b).append (.nil b')
        rw [List.append_nil] at hterm
        rw [leaves_of_negated hs ho, hb, (eq_of_ofTerm_negated ho).1]
        exact hterm
      · rw [leaves_eq_singleton hs fun rest h => ho ⟨rest, h⟩]
        have hself := InTextOrder.cons [] s (.nil [])
        rwa [List.append_nil] at hself

end TextOrder

section Steps

variable {α : Type} [Arithmetic α]

def Operand.step? : Operand → Option (Step × Text)
  | stepped step name => some (step, trim name)
  | negated _ | plain _ => none

def steps (ts : List Text) : List (Step × Text) :=
  ts.filterMap fun t => (Operand.ofTerm (trim t)).step?

def applyStep (vars : Variables α) (p : Step × Text) : Variables α :=
  match vars.get? p.2 with
  | some old => vars.insert p.2 (old + p.1.delta)
  | none => vars

theorem names_applyStep (vars : Variables α) (p : Step × Text) :
    (applyStep vars p).names = vars.names := by
  unfold applyStep
  cases hx : vars.get? p.2 with
  | none => rfl
  | some old => exact Variables.names_insert_of_mem (Variables.mem_names_of_get? hx) _

theorem names_foldl_applyStep (ps : List (Step × Text)) (vars : Variables α) :
    (ps.foldl applyStep vars).names = vars.names := by
  induction ps generalizing vars with
  | nil => rfl
  | cons p ps ih => rw [List.foldl_cons, ih, names_applyStep]

theorem get?_foldl_applyStep {ps : List (Step × Text)} {x : Text} (h : x ∉ ps.map (·.2))
    (vars : Variables α) : (ps.foldl applyStep vars).get? x = vars.get? x := by
  induction ps generalizing vars with
  | nil => rfl
  | cons p ps ih =>
    obtain ⟨hp, hps⟩ : x ≠ p.2 ∧ x ∉ ps.map (·.2) := by simpa using h
    rw [List.foldl_cons, ih hps, applyStep]
    cases vars.get? p.2 with
    | none => rfl
    | some old => exact Variables.get?_insert_of_ne _ hp

end Steps

/-- Why a leaf has no value over variables of the given names, if it has none. -/
def failure? (names : List Text) (t : Text) : Option Failure :=
  match Operand.ofTerm (trim t) with
  | .negated _ => none
  | .stepped _ name =>
    if trim name ∈ names then none else some (.unknownVariable (trim name) (trim t))
  | .plain text =>
    if text ∈ names then none
    else if text.head?.any isLetter then some (.unknownVariable text t)
    else if (Numeral.ofText? text).isSome then none else some (.notANumber text)

section Walks

variable {α β γ : Type} [Arithmetic α]

/-- Whether an evaluation may end in front of the given leaves: there are none left, or the first of
them is the one that fails. -/
def StopsBefore (names rest : List Text) : Except Failure β → Prop
  | .ok _ => rest = []
  | .error .tooDeep => True
  | .error f => ∃ t ∈ rest.head?, failure? names t = some f

/-- An evaluation that begins with the given variables goes through some leaves, of which each has a
value, takes their steps and stops. -/
structure Walked (ts : List Text) (vars : Variables α) (done rest : List Text)
    (o : Except Failure β × Variables α) : Prop where
  leaves_eq : ts = done ++ rest
  have_values : ∀ t ∈ done, failure? vars.names t = none
  stepped : o.2 = (steps done).foldl applyStep vars
  stops : StopsBefore vars.names rest o.1

def Walks (ts : List Text) (m : Evaluation α β) : Prop :=
  ∀ vars, ∃ done rest, Walked ts vars done rest (m.run.run vars)

namespace Walks

variable {ts ts' : List Text} {m : Evaluation α β}

theorem pure (b : β) : Walks (α := α) [] (Pure.pure b) := fun _ => ⟨[], [], rfl, nofun, rfl, rfl⟩

theorem tooDeep (ts : List Text) : Walks ts (throw .tooDeep : Evaluation α β) :=
  fun _ => ⟨[], ts, rfl, nofun, rfl, trivial⟩

theorem bind {f : β → Evaluation α γ} (hm : Walks ts m) (hf : ∀ b, Walks ts' (f b)) :
    Walks (ts ++ ts') (m >>= f) := by
  intro vars
  obtain ⟨done, rest, rfl, hdone, hsteps, hstops⟩ := hm vars
  rw [run_bind]
  rcases hr : m.run.run vars with ⟨e | b, mid⟩ <;> rw [hr] at hsteps hstops
  · refine ⟨done, rest ++ ts', List.append_assoc .., hdone, hsteps, ?_⟩
    cases e with
    | tooDeep => trivial
    | unknownVariable | notANumber =>
      obtain ⟨t, ht, hf⟩ := hstops
      exact ⟨t, List.mem_head?_append_of_mem_head? ht, hf⟩
  · obtain rfl : rest = [] := hstops
    obtain rfl : mid = (steps done).foldl applyStep vars := hsteps
    obtain ⟨done', rest', rfl, hdone', hsteps', hstops'⟩ := hf b ((steps done).foldl applyStep vars)
    rw [names_foldl_applyStep] at hdone' hstops'
    refine ⟨done ++ done', rest', by simp, fun t ht => ?_, ?_, hstops'⟩
    · exact (List.mem_append.mp ht).elim (hdone t) (hdone' t)
    · rw [hsteps', steps, steps, steps, List.filterMap_append, List.foldl_append]

theorem inOrder {x y : Evaluation α α} (op : BinaryOp) (hx : Walks ts x) (hy : Walks ts' y) :
    Walks (ts ++ ts') (op.inOrder x y) := by
  have hy' : ∀ a : α, Walks (ts' ++ []) (y >>= fun b => Pure.pure (op.apply a b)) := fun a =>
    hy.bind fun b => pure _
  rw [List.append_nil] at hy'
  exact hx.bind hy'

theorem neg {x : Evaluation α α} (hx : Walks ts x) : Walks ts (do return -(← x)) := by
  have h := hx.bind fun b => pure (-b)
  rwa [List.append_nil] at h

end Walks

theorem walks_lookUp {s : Text} (ho : Operand.ofTerm (trim s) = .plain (trim s)) :
    Walks (α := α) [s] (lookUp (trim s) s) := by
  intro vars
  have hfail : failure? vars.names s = if trim s ∈ vars.names then none
      else if (trim s).head?.any isLetter then some (.unknownVariable (trim s) s)
      else if (Numeral.ofText? (trim s)).isSome then none else some (.notANumber (trim s)) := by
    rw [failure?, ho]
  have hsteps : steps [s] = [] := by simp [steps, ho, Operand.step?]
  rw [run_lookUp]
  cases hx : vars.get? (trim s) with
  | some v =>
    rw [if_pos (Variables.mem_names_of_get? hx)] at hfail
    exact ⟨[s], [], rfl, by simpa using hfail, by rw [hsteps]; rfl, rfl⟩
  | none =>
    rw [if_neg (Variables.get?_eq_none_iff.mp hx)] at hfail
    simp only [run_numberOf]
    split
    · next hl =>
      rw [if_pos hl] at hfail
      exact ⟨[], [s], rfl, nofun, rfl, s, rfl, hfail⟩
    · next hl =>
      rw [if_neg hl] at hfail
      cases hn : Numeral.ofText? (trim s) with
      | none =>
        rw [hn] at hfail
        exact ⟨[], [s], rfl, nofun, rfl, s, rfl, hfail⟩
      | some n =>
        rw [hn] at hfail
        exact ⟨[s], [], rfl, by simpa using hfail, by rw [hsteps]; rfl, rfl⟩

theorem walks_takeStep {s name : Text} {step : Step}
    (ho : Operand.ofTerm (trim s) = .stepped step name) :
    Walks (α := α) [s] (takeStep step name (trim s)) := by
  intro vars
  have hfail : failure? vars.names s = if trim name ∈ vars.names then none
      else some (.unknownVariable (trim name) (trim s)) := by
    rw [failure?, ho]
  have hsteps : steps [s] = [(step, trim name)] := by simp [steps, ho, Operand.step?]
  rw [run_takeStep]
  cases hx : vars.get? (trim name) with
  | none =>
    rw [if_neg (Variables.get?_eq_none_iff.mp hx)] at hfail
    exact ⟨[], [s], rfl, nofun, rfl, s, rfl, hfail⟩
  | some old =>
    rw [if_pos (Variables.mem_names_of_get? hx)] at hfail
    refine ⟨[s], [], rfl, by simpa using hfail, ?_, rfl⟩
    rw [hsteps, List.foldl_cons, applyStep, hx]
    rfl

theorem walks_evaluateWithin (depth : Nat) (s : Text) :
    Walks (α := α) (leaves s) (evaluateWithin depth s) := by
  refine evaluateWithin_induction (P := fun s m => Walks (leaves s) m)
    (fun s => Walks.tooDeep _) ?plain ?stepped ?negated ?binary depth s
  case plain =>
    intro s hs ho
    rw [leaves_eq_singleton hs (by simp [ho])]
    exact walks_lookUp ho
  case stepped =>
    intro s name step hs ho
    rw [leaves_eq_singleton hs (by simp [ho])]
    exact walks_takeStep ho
  case negated =>
    intro s rest x hs ho hx
    rw [leaves_of_negated hs ho]
    exact hx.neg
  case binary =>
    intro s u v op x y hs hx hy
    rw [leaves_of_split hs]
    exact hx.inOrder op hy

/-- An evaluation keeps the names. It leaves the variables as the steps of its leaves make them, one
after the other in the order of the text: of all leaves if it has a value, and otherwise of those
before the first leaf that fails, whose failure it has. It gives up only when as many evaluations
nest as half of its levels; so it does not give up on a padded text without long runs of signs. -/
theorem evaluate_effects (s : Text) (vars : Variables α) (depth : Nat) :
    InTextOrder (leaves s) s ∧ (evaluate s vars depth).2.names = vars.names ∧
      (∃ done rest, leaves s = done ++ rest ∧ (∀ t ∈ done, failure? vars.names t = none) ∧
        (evaluate s vars depth).2 = (steps done).foldl applyStep vars ∧
        (∀ x, x ∉ (steps done).map (·.2) → (evaluate s vars depth).2.get? x = vars.get? x) ∧
        match (evaluate s vars depth).1 with
        | .ok _ => rest = []
        | .error .tooDeep => Nests (depth / 2 + 1) s vars
        | .error f => ∃ t later, rest = t :: later ∧ failure? vars.names t = some f) ∧
      (Lettered vars.names → ∀ t, s = pad t → signRun t + 10 < depth →
        (evaluate s vars depth).1 ≠ .error .tooDeep) := by
  obtain ⟨done, rest, hleaves, hdone, hsteps, hstops⟩ := walks_evaluateWithin depth s vars
  have hafter : (evaluate s vars depth).2 = (steps done).foldl applyStep vars := hsteps
  refine ⟨inTextOrder_leaves s, ?_, ⟨done, rest, hleaves, hdone, hafter, fun x hx => ?_, ?_⟩,
    fun hl t ht hd => ?_⟩
  · rw [hafter, names_foldl_applyStep]
  · rw [hafter, get?_foldl_applyStep hx]
  · change StopsBefore vars.names rest (evaluate s vars depth).1 at hstops
    have hnests : (evaluate s vars depth).1 = .error .tooDeep → Nests (depth / 2 + 1) s vars :=
      nests_of_givesUp
    generalize (evaluate s vars depth).1 = outcome at hstops hnests
    match outcome, hstops with
    | .ok _, h => exact h
    | .error .tooDeep, _ => exact hnests rfl
    | .error (.unknownVariable _ _), ⟨t, ht, h⟩ | .error (.notANumber _), ⟨t, ht, h⟩ =>
      obtain ⟨later, rfl⟩ := List.head?_eq_some_iff.mp ht
      exact ⟨t, later, rfl, h⟩
  · rw [ht]
    exact evaluateWithin_ne_tooDeep hl hd

/-- The first leaf is stepped, the second one fails, and the step of the third is not made. -/
theorem evaluate_effects_failing_leaf :
    let s := pad "a++ * b + c--".toList
    let vars : Variables Float := .ofList [(['a'], 1), (['c'], 3)]
    leaves s = ["a++ ".toList, " b ".toList, " c--".toList] ∧
      (evaluate s vars).1 = .error (.unknownVariable ['b'] " b ".toList) ∧
      (evaluate s vars).2.get? ['a'] = some 2 ∧ (evaluate s vars).2.get? ['c'] = some 3 := by
  intro s vars
  have hleaves : leaves s = ["a++ ".toList, " b ".toList, " c--".toList] := by decide +kernel
  have hfails : (evaluate s vars).1 = .error (.unknownVariable ['b'] " b ".toList) := by
    decide +kernel
  obtain ⟨-, -, ⟨done, rest, hsplit, hdone, hafter, hframe, hstops⟩, -⟩ :=
    evaluate_effects s vars maxDepth
  rw [hfails] at hstops
  obtain ⟨t, later, rfl, ht⟩ := hstops
  have hb : failure? vars.names " b ".toList ≠ none := by decide +kernel
  -- The leaves before the failing one have no failures, so it is not behind the second.
  obtain rfl : done = ["a++ ".toList] := by
    rw [hleaves] at hsplit
    match done with
    | [] =>
      obtain ⟨rfl, -⟩ := List.cons.inj hsplit
      revert ht
      decide +kernel
    | [x] => exact congrArg (fun l => [l]) (List.cons.inj hsplit).1.symm
    | x :: y :: more =>
      obtain ⟨-, hsplit⟩ := List.cons.inj hsplit
      obtain ⟨rfl, -⟩ := List.cons.inj hsplit
      exact absurd (hdone _ (List.mem_cons_of_mem x List.mem_cons_self)) hb
  refine ⟨hleaves, hfails, ?_, hframe ['c'] (by decide +kernel)⟩
  rw [hafter]
  decide +kernel

end Walks

end Worksheet.Expression
