import Worksheet.Proofs.Expression.Leftmost
import Worksheet.Proofs.Expression.Respacing
import Worksheet.Proofs.Session.Reachable

/-! # Compound assignments

A compound assignment is one of a sum or a difference whose text begins with the target. So it reads
the target before the steps of its right side. An addition adds the value of the right side,
whatever that is. A subtraction subtracts the value of one term: of a sum or a difference it
subtracts what stands on the left, and goes on from there.

The pasted text takes two levels more than its right side. What is said of the value of a right side
by itself is said of an evaluation that no other calls are around.
-/
namespace Worksheet
open Text

namespace Session
open Statement Expression

variable {s : Session} {n b b' rhs : Text}

section Told

variable {a : Statement} {after : Variables Float}

theorem exists_execute_unknown {name context : Text}
    (h : told (evaluate a.expression s.vars s.depth) =
      (.error (.unknownVariable name context), after)) :
    ∃ e, trim e = context ∧ s.execute a = (.error (.unknownVariable name e), s) := by
  obtain ⟨f, hf, htrim⟩ := exists_of_told_eq_error h
  cases f with
  | unknownVariable x e =>
    obtain ⟨rfl, he⟩ := Failure.unknownVariable.inj htrim
    exact ⟨e, he, execute_fails hf⟩
  | notANumber _ => cases htrim
  | tooDeep => cases htrim

theorem exists_execute_fails {f : Failure}
    (h : told (evaluate a.expression s.vars s.depth) = (.error f.trimmed, after))
    (hf : f.trimmed ≠ .tooDeep) (e : Text) : ∃ fault, s.execute a = (.error fault, s) ∧
      fault.message = (Fault.ofFailure e f).message := by
  obtain ⟨g, hg, htrim⟩ := exists_of_told_eq_error h
  refine ⟨_, execute_fails hg, ?_⟩
  have hg' : g.trimmed ≠ .tooDeep := htrim ▸ hf
  rw [← message_trimmed (e := e) (absurd · hg'), htrim, message_trimmed (absurd · hf)]

end Told

/-- A compound assignment is one of the text that it pastes together. -/
theorem ofLine_compound (kind : Assignment) (op : BinaryOp)
    (hexpand : ∀ r, kind.expand n r = n ++ ' ' :: op.char :: ' ' :: r) (hn : IsTarget n)
    (hb : isBlank b = true) (hb' : isBlank b' = true) (hr : isBlank rhs = false) (he : '=' ∉ rhs) :
    Statement.ofLine (n ++ b ++ kind.sign ++ (b' ++ rhs)) =
      .ok ⟨kind, n, pad (n ++ ' ' :: op.char :: ' ' :: (b' ++ rhs))⟩ := by
  have hright : isBlank (b' ++ rhs) = false := by rw [isBlank_append, hr, Bool.and_false]
  have hequals : '=' ∉ b' ++ rhs := by simp [he, not_mem_of_isBlank hb']
  have hline := ofLine_sign hn hb kind hright hequals
  rwa [hexpand] at hline

theorem Reachable.endsWithin {depth : Nat} (h : Reachable s) (hd : signRun rhs + 10 < depth) :
    EndsWithin depth rhs s.vars := Or.inl ⟨h.wellNamed.lettered, hd⟩

theorem depth_eq (s : Session) : s.depth = s.depth - 2 + 2 := by
  have hdepth := s.le_depth
  omega

theorem depth_sub_le (s : Session) : s.depth - 2 ≤ maxDepth :=
  Nat.le_trans (Nat.sub_le _ _) (Nat.sub_le _ _)

/-- A compound addition reads the target, then evaluates the right side as it is by itself, and adds
the two. -/
theorem executeLine_adding (s : Session) (hn : IsTarget n) (hb : isBlank b = true)
    (hb' : isBlank b' = true) (hr : isBlank rhs = false) (he : '=' ∉ rhs)
    (hd : EndsWithin (s.depth - 2) rhs s.vars) :
    let line := n ++ b ++ "+=".toList ++ (b' ++ rhs)
    match s.get? n, evaluate (pad rhs) s.vars with
    | none, _ => ∃ e, trim e = n ∧ s.executeLine line = (.error (.unknownVariable n e), s)
    | some v, (.ok r, after) =>
      s.executeLine line = (.ok (v + r), { s with vars := after.insert n (v + r) })
    | some _, (.error f, _) => ∃ fault, s.executeLine line = (.error fault, s) ∧
        fault.message = (Fault.ofFailure (pad rhs) f).message := by
  intro line
  have hline : Statement.ofLine line =
      .ok ⟨.adding, n, pad (n ++ ' ' :: BinaryOp.plus.char :: ' ' :: (b' ++ rhs))⟩ :=
    ofLine_compound .adding .plus (List.append_assoc n _) hn hb hb' hr he
  have hlevels := s.le_depth
  have halone := evaluate_of_le s.depth_sub_le hd.ne_tooDeep
  have hsum := told_evaluate_pasted hn.isName (alike_append_left hb' rhs)
    (split?_pasted_plus hn.isName hr) (by omega) hd.ne_tooDeep
  rw [← s.depth_eq, ← halone] at hsum
  rw [executeLine_ok hline]
  cases hv : s.get? n with
  | none =>
    simp only [show s.vars.get? n = none from hv] at hsum
    exact exists_execute_unknown hsum
  | some v =>
    simp only [show s.vars.get? n = some v from hv] at hsum
    rcases hrhs : evaluate (pad rhs) s.vars with ⟨f | r, after⟩
    · rw [hrhs] at hsum halone
      have hdeep := hd.ne_tooDeep
      rw [← evaluate, ← halone, Ne, ← told_eq_tooDeep] at hdeep
      exact exists_execute_fails hsum (fun h => hdeep (congrArg Except.error h)) (pad rhs)
    · rw [hrhs] at hsum
      exact execute_ok (eq_of_told_eq_ok hsum)

/-- The target is read before the right side increments it. -/
theorem executeLine_adding_own_increment :
    let s := (executeLine {} "n = 1".toList).2
    let rhs := "n++ * 2".toList
    let after := s.vars.insert ['n'] 2
    IsTarget ['n'] ∧ EndsWithin (s.depth - 2) rhs s.vars ∧ s.get? ['n'] = some 1 ∧
      evaluate (pad rhs) s.vars = (.ok 2, after) ∧
      s.executeLine "n += n++ * 2".toList = (.ok 3, { s with vars := after.insert ['n'] 3 }) := by
  intro s rhs after
  have hn : IsTarget ['n'] := by decide +kernel
  have hd : EndsWithin (s.depth - 2) rhs s.vars :=
    (Reachable.fresh.line _).endsWithin (by decide +kernel)
  have hv : s.get? ['n'] = some 1 := by decide +kernel
  have hr : evaluate (pad rhs) s.vars = (.ok 2, after) := by decide +kernel
  clear_value s
  have h := executeLine_adding s hn isBlank_space isBlank_space (by decide +kernel)
    (by decide +kernel) hd
  have hsum : (1 : Float) + 2 = 3 := by decide +kernel
  simp only [hv, hr, hsum] at h
  exact ⟨hn, hd, hv, hr, h⟩

section Subtracting

variable {v r : Float} {after : Variables Float} (hs : Lettered s.vars.names) (hn : IsTarget n)
  (hb : isBlank b = true) (hb' : isBlank b' = true) (hr : isBlank rhs = false) (he : '=' ∉ rhs)
  (hd : signRun rhs + 10 < s.depth - 2) (hv : s.get? n = some v)
  (hrhs : evaluate (pad rhs) s.vars = (.ok r, after))

theorem paste_minus (n left : Text) :
    n ++ " - ".toList ++ left = n ++ ' ' :: BinaryOp.minus.char :: ' ' :: left :=
  List.append_assoc n _ left

include hn hb hb' hr he in
theorem executeLine_minus : s.executeLine (n ++ b ++ "-=".toList ++ (b' ++ rhs)) =
    s.execute ⟨.subtracting, n, pad (n ++ ' ' :: BinaryOp.minus.char :: ' ' :: (b' ++ rhs))⟩ :=
  executeLine_ok (ofLine_compound .subtracting .minus (paste_minus n) hn hb hb' hr he) s

include hs hn hb hb' hr he hd hv hrhs

theorem executeLine_minus_of_term (hterm : SingleTerm rhs) :
    s.executeLine (n ++ b ++ "-=".toList ++ (b' ++ rhs)) =
      (.ok (v - r), { s with vars := after.insert n (v - r) }) := by
  rw [evaluate_pad_of_le hs hd s.depth_sub_le] at hrhs
  have hdiff := evaluate_pasted_minus_of_term hn.isName hterm hr hs hv hd hrhs
    (alike_append_left hb' rhs)
  rw [← s.depth_eq] at hdiff
  rw [executeLine_minus hn hb hb' hr he]
  exact execute_ok hdiff

omit hv in
/-- From a sum or a difference the target is taken with the left half. -/
theorem executeLine_minus_of_split {op : BinaryOp} {left right : Text} {x y : Float}
    {mid last : Variables Float} (hsplit : split? (pad rhs) = some ⟨op, left, right⟩)
    (hop : op = .plus ∨ op = .minus)
    (hleft : evaluate (pad (n ++ " - ".toList ++ left)) s.vars = (.ok x, mid))
    (hright : evaluate right mid = (.ok y, last)) :
    s.executeLine (n ++ b ++ "-=".toList ++ (b' ++ rhs)) =
      (.ok (op.apply x y), { s with vars := last.insert n (op.apply x y) }) := by
  rw [paste_minus] at hleft
  have hnames := ensures_known maxDepth (airy_pad _) s.vars x mid (fun _ => Iff.rfl) hleft
  have hmid : Lettered mid.names := fun z hz => hs z ((hnames.2 z).mp hz)
  obtain ⟨hleftRun, hrightRun⟩ := signRun_halves hsplit
  have hpasted : signRun (n ++ ' ' :: BinaryOp.minus.char :: ' ' :: left) + 10 < s.depth - 2 := by
    rw [signRun_paste hn.isName]
    omega
  rw [evaluate_pad_of_le hs hpasted s.depth_sub_le] at hleft
  rw [← evaluate_eq_ok_iff (trim_pad_halves hsplit).2,
    evaluate_pad_of_le hmid (by omega) s.depth_sub_le] at hright
  have hdiff := evaluate_pasted_minus_of_split hn.isName (alike_append_left hb' rhs)
    (not_begins_of_evaluate hs hrhs) hsplit hop hleft hright
  rw [← s.depth_eq] at hdiff
  rw [executeLine_minus hn hb hb' hr he]
  exact execute_ok hdiff

/-- Both halves of a sum or a difference have values when the whole has one, and so has the left one
behind the target and a minus. Nothing but the value of the target depends on this minus. -/
theorem exists_executeLine_minus {op : BinaryOp} {left right : Text}
    (hsplit : split? (pad rhs) = some ⟨op, left, right⟩) (hop : op = .plus ∨ op = .minus)
    (hterm : TermFirst left) :
    ∃ l x y mid, evaluate left s.vars = (.ok l, mid) ∧ evaluate right mid = (.ok y, after) ∧
      r = op.apply l y ∧ evaluate (pad (n ++ " - ".toList ++ left)) s.vars = (.ok x, mid) ∧
      s.executeLine (n ++ b ++ "-=".toList ++ (b' ++ rhs)) =
        (.ok (op.apply x y), { s with vars := after.insert n (op.apply x y) }) := by
  have hlevels := s.depth_sub_le
  obtain ⟨htl, htr⟩ := trim_pad_halves hsplit
  obtain ⟨l, mid, y, hleft, hright, hvalue⟩ :=
    exists_of_evaluate_split hs hsplit (Nat.lt_of_lt_of_le hd hlevels) hrhs
  have hrun := (signRun_halves hsplit).1
  obtain ⟨x, hx⟩ := exists_evaluate_pasted_minus hn.isName hterm (not_isBlank_of_split? hsplit).1 hs
    hv (by omega) hleft
  rw [← paste_minus] at hx
  rw [evaluate_eq_ok_iff htl] at hleft
  rw [evaluate_eq_ok_iff htr] at hright
  exact ⟨l, x, y, mid, hleft, hright, hvalue, hx,
    executeLine_minus_of_split hs hn hb hb' hr he hd hrhs hsplit hop hx hright⟩

end Subtracting

/-- A compound subtraction subtracts the value of a right side that is one term. Of a sum or a
difference it subtracts the left half as it would subtract that by itself, and then adds or
subtracts the right half. When the leftmost term can take the minus, the halves have values that
make up the value of the right side, and the other variables are those that the right side leaves. -/
theorem executeLine_subtracting {v r : Float} {after : Variables Float}
    (hs : Lettered s.vars.names) (hn : IsTarget n) (hb : isBlank b = true)
    (hb' : isBlank b' = true) (hr : isBlank rhs = false) (he : '=' ∉ rhs)
    (hd : signRun rhs + 10 < s.depth - 2) (hv : s.get? n = some v)
    (hrhs : evaluate (pad rhs) s.vars = (.ok r, after)) :
    let line := n ++ b ++ "-=".toList ++ (b' ++ rhs)
    (SingleTerm rhs →
      s.executeLine line = (.ok (v - r), { s with vars := after.insert n (v - r) })) ∧
    (∀ (op : BinaryOp) (left right : Text) (x y : Float) (mid last : Variables Float),
      split? (pad rhs) = some ⟨op, left, right⟩ → op = .plus ∨ op = .minus →
      evaluate (pad (n ++ " - ".toList ++ left)) s.vars = (.ok x, mid) →
      evaluate right mid = (.ok y, last) →
      s.executeLine line =
        (.ok (op.apply x y), { s with vars := last.insert n (op.apply x y) })) ∧
    ∀ (op : BinaryOp) (left right : Text),
      split? (pad rhs) = some ⟨op, left, right⟩ → op = .plus ∨ op = .minus → TermFirst left →
      ∃ l x y mid, evaluate left s.vars = (.ok l, mid) ∧ evaluate right mid = (.ok y, after) ∧
        r = op.apply l y ∧ evaluate (pad (n ++ " - ".toList ++ left)) s.vars = (.ok x, mid) ∧
        s.executeLine line =
          (.ok (op.apply x y), { s with vars := after.insert n (op.apply x y) }) :=
  ⟨executeLine_minus_of_term hs hn hb hb' hr he hd hv hrhs, fun _ _ _ _ _ _ _ =>
    executeLine_minus_of_split hs hn hb hb' hr he hd hrhs, fun _ _ _ =>
    exists_executeLine_minus hs hn hb hb' hr he hd hv hrhs⟩

/-- A product is subtracted as a whole, and of a difference the left half. -/
theorem executeLine_subtracting_product :
    let s := (executeLine {} "n = 10".toList).2
    let after := s.vars.insert ['n'] 11
    let product := "2 * 3".toList
    let difference := "3 - n++ - 1".toList
    Lettered s.vars.names ∧ IsTarget ['n'] ∧ s.get? ['n'] = some 10 ∧ SingleTerm product ∧
      s.executeLine "n -= 2 * 3".toList = (.ok 4, { s with vars := s.vars.insert ['n'] 4 }) ∧
      split? (pad difference) = some ⟨.minus, "3 - n++ ".toList, " 1".toList⟩ ∧
      TermFirst "3 - n++ ".toList ∧ evaluate (pad difference) s.vars = (.ok (-8), after) ∧
      s.executeLine "n -= 3 - n++ - 1".toList =
        (.ok (-4), { s with vars := after.insert ['n'] (-4) }) := by
  intro s after product difference
  have hs : Lettered s.vars.names := (Reachable.fresh.line _).wellNamed.lettered
  have hn : IsTarget ['n'] := by decide +kernel
  have hv : s.get? ['n'] = some 10 := by decide +kernel
  have hterm : SingleTerm product := .of_last (by decide +kernel) (by decide +kernel)
  have hfirst : split? (pad "3 - n++ ".toList) = some ⟨.minus, "3 ".toList, " n++ ".toList⟩ := by
    decide +kernel
  have hthree : SingleTerm "3 ".toList := .of_last (by decide +kernel) (by decide +kernel)
  have hleftmost : TermFirst "3 - n++ ".toList := .split hfirst (.inr rfl) (.term hthree)
  have hsplit : split? (pad difference) = some ⟨.minus, "3 - n++ ".toList, " 1".toList⟩ := by
    decide +kernel
  have hproduct : evaluate (pad product) s.vars = (.ok 6, s.vars) := by decide +kernel
  have hdifference : evaluate (pad difference) s.vars = (.ok (-8), after) := by decide +kernel
  have hpasted : evaluate (pad (['n'] ++ " - ".toList ++ "3 - n++ ".toList)) s.vars =
      (.ok (-3), after) := by decide +kernel
  have hone : evaluate " 1".toList after = (.ok 1, after) := by decide +kernel
  have h := (executeLine_subtracting hs hn isBlank_space isBlank_space (by decide +kernel)
    (by decide +kernel) (by decide +kernel) hv hproduct).1 hterm
  obtain ⟨l, x, y, mid, -, hy, -, hx, h'⟩ := (executeLine_subtracting hs hn isBlank_space
    isBlank_space (by decide +kernel) (by decide +kernel) (by decide +kernel) hv hdifference).2.2
    _ _ _ hsplit (.inr rfl) hleftmost
  obtain ⟨hxvalue, rfl⟩ := Prod.mk.inj (hpasted.symm.trans hx)
  obtain ⟨hyvalue, -⟩ := Prod.mk.inj (hone.symm.trans hy)
  have hfour : (10 : Float) - 6 = 4 := by decide +kernel
  have hlast : BinaryOp.minus.apply (-3 : Float) 1 = -4 := by decide +kernel
  rw [hfour] at h
  rw [← Except.ok.inj hxvalue, ← Except.ok.inj hyvalue, hlast] at h'
  exact ⟨hs, hn, hv, hterm, h, hsplit, hleftmost, hdifference, h'⟩

/-- Of a difference only the left half is subtracted. A name that ends in a minus is not even read
behind the target. -/
theorem executeLine_subtracting_difference :
    let s := (executeLine {} "n = 10".toList).2
    let t := (s.executeLine "a - = 5".toList).2
    Reachable t ∧ IsTarget ['n'] ∧ t.get? ['n'] = some 10 ∧
      (evaluate (pad "3 - 1".toList) t.vars).1 = .ok 2 ∧
      (t.executeLine "n -= 3 - 1".toList).1 = .ok 6 ∧ (6 : Float) ≠ 10 - 2 ∧
      (evaluate (pad "a -".toList) t.vars).1 = .ok 5 ∧
      (t.executeLine "n -= a -".toList).1 =
        .error (.unknownVariable "n - a -".toList "n - a - ".toList) := by
  intro s t
  exact ⟨(Reachable.fresh.line _).line _, by decide +kernel, by decide +kernel, by decide +kernel,
    by decide +kernel, by decide +kernel, by decide +kernel, by decide +kernel⟩

end Session

end Worksheet
