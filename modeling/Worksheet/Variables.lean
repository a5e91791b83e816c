import Worksheet.Text.Blank

/-! # Variables

A finite mapping from names to values, kept as one list in strictly increasing order of names.
Names are ordered by their code points. The order makes the list of a mapping unique, so two
mappings with the same values are equal.
-/
namespace Worksheet

structure Variables (α : Type) where
  entries : List (Text × α)
  sorted : entries.Pairwise (·.1 < ·.1)
deriving DecidableEq

namespace Variables
variable {α : Type}

theorem name_eq_of_not_lt {a b : Text} (hab : ¬ a < b) (hba : ¬ b < a) : a = b :=
  Std.Trichotomous.trichotomous a b hab hba

def valueIn (name : Text) : List (Text × α) → Option α
  | [] => none
  | (n, v) :: rest => if name = n then some v else valueIn name rest

def insertIn (name : Text) (value : α) : List (Text × α) → List (Text × α)
  | [] => [(name, value)]
  | (n, v) :: rest =>
    if name < n then (name, value) :: (n, v) :: rest
    else if n < name then (n, v) :: insertIn name value rest
    else (name, value) :: rest

theorem lt_of_mem_insertIn {a name : Text} {value : α} {l : List (Text × α)} (hname : a < name)
    (hl : ∀ e ∈ l, a < e.1) : ∀ e ∈ insertIn name value l, a < e.1 := by
  induction l with
  | nil => simpa [insertIn] using hname
  | cons e rest ih =>
    have he := hl e List.mem_cons_self
    have hrest : ∀ e ∈ rest, a < e.1 := fun e h => hl e (List.mem_cons_of_mem _ h)
    unfold insertIn
    split
    · simpa [hname, he] using hrest
    · split
      · simpa [he] using ih hrest
      · simpa [hname] using hrest

theorem sorted_insertIn {name : Text} {value : α} {l : List (Text × α)}
    (h : l.Pairwise (·.1 < ·.1)) : (insertIn name value l).Pairwise (·.1 < ·.1) := by
  induction l with
  | nil => simp [insertIn]
  | cons e rest ih =>
    obtain ⟨he, hrest⟩ := List.pairwise_cons.mp h
    unfold insertIn
    split
    · next hlt =>
      refine List.pairwise_cons.mpr ⟨fun d hd => ?_, h⟩
      rcases List.mem_cons.mp hd with rfl | hd
      · exact hlt
      · exact List.lt_trans hlt (he d hd)
    · next hge =>
      split
      · next hlt =>
        exact List.pairwise_cons.mpr ⟨lt_of_mem_insertIn hlt he, ih hrest⟩
      · next hle =>
        have hn : name = e.1 := name_eq_of_not_lt hge hle
        exact List.pairwise_cons.mpr ⟨fun d hd => hn ▸ he d hd, hrest⟩

theorem valueIn_insertIn (name other : Text) (value : α) (l : List (Text × α)) :
    valueIn other (insertIn name value l) =
      if other = name then some value else valueIn other l := by
  induction l with
  | nil => simp [insertIn, valueIn]
  | cons e rest ih =>
    unfold insertIn
    split
    · simp [valueIn]
    · next hge =>
      split
      · next hlt =>
        have hne : name ≠ e.1 := by
          rintro rfl
          exact List.lt_irrefl _ hlt
        by_cases ho : other = e.1
        · simp [valueIn, ho, Ne.symm hne]
        · simp [valueIn, ho, ih]
      · next hle =>
        have hn : name = e.1 := name_eq_of_not_lt hge hle
        by_cases ho : other = e.1 <;> simp [valueIn, ho, hn]

theorem map_fst_insertIn {name : Text} (value : α) {l : List (Text × α)}
    (h : l.Pairwise (·.1 < ·.1)) (hname : name ∈ l.map (·.1)) :
    (insertIn name value l).map (·.1) = l.map (·.1) := by
  induction l with
  | nil => cases hname
  | cons e rest ih =>
    obtain ⟨he, hrest⟩ := List.pairwise_cons.mp h
    rcases List.mem_cons.mp hname with rfl | hname
    · rw [insertIn, if_neg (List.lt_irrefl _), if_neg (List.lt_irrefl _)]
      rfl
    · obtain ⟨d, hd, rfl⟩ := List.mem_map.mp hname
      have hlt : e.1 < d.1 := he d hd
      have hge : ¬ d.1 < e.1 := fun hgt => List.lt_irrefl _ (List.lt_trans hlt hgt)
      simp [insertIn, hge, hlt, ih hrest hname]

theorem valueIn_eq_none {name : Text} {l : List (Text × α)} (h : ∀ e ∈ l, name < e.1) :
    valueIn name l = none := by
  induction l with
  | nil => rfl
  | cons e rest ih =>
    have hne : name ≠ e.1 := by
      rintro rfl
      exact List.lt_irrefl _ (h e List.mem_cons_self)
    simp only [valueIn, hne, if_false]
    exact ih fun d hd => h d (List.mem_cons_of_mem _ hd)

theorem valueIn_eq_some_iff {name : Text} {value : α} {l : List (Text × α)}
    (h : l.Pairwise (·.1 < ·.1)) : valueIn name l = some value ↔ (name, value) ∈ l := by
  induction l with
  | nil => simp [valueIn]
  | cons e rest ih =>
    obtain ⟨he, hrest⟩ := List.pairwise_cons.mp h
    by_cases hname : name = e.1
    · subst hname
      have hnot : (e.1, value) ∉ rest := fun hmem =>
        List.lt_irrefl e.1 (he (e.1, value) hmem)
      simp [valueIn, hnot, Prod.ext_iff, eq_comm]
    · simp [valueIn, hname, ih hrest, Prod.ext_iff]

theorem eq_of_valueIn_eq {k l : List (Text × α)} (hk : k.Pairwise (·.1 < ·.1))
    (hl : l.Pairwise (·.1 < ·.1)) (h : ∀ name, valueIn name k = valueIn name l) : k = l := by
  induction k generalizing l with
  | nil =>
    cases l with
    | nil => rfl
    | cons e rest => simpa [valueIn] using h e.1
  | cons d k ih =>
    obtain ⟨hd, hk⟩ := List.pairwise_cons.mp hk
    cases l with
    | nil => simpa [valueIn] using h d.1
    | cons e l =>
      obtain ⟨he, hl⟩ := List.pairwise_cons.mp hl
      have hde : ¬ d.1 < e.1 := by
        intro hlt
        have hnone : valueIn d.1 (e :: l) = none := by
          refine valueIn_eq_none fun x hx => ?_
          rcases List.mem_cons.mp hx with rfl | hx
          · exact hlt
          · exact List.lt_trans hlt (he x hx)
        have := h d.1
        rw [hnone] at this
        simp [valueIn] at this
      have hed : ¬ e.1 < d.1 := by
        intro hlt
        have hnone : valueIn e.1 (d :: k) = none := by
          refine valueIn_eq_none fun x hx => ?_
          rcases List.mem_cons.mp hx with rfl | hx
          · exact hlt
          · exact List.lt_trans hlt (hd x hx)
        have := h e.1
        rw [hnone] at this
        simp [valueIn] at this
      have hname := name_eq_of_not_lt hde hed
      have hvalue : d.2 = e.2 := by simpa [valueIn, hname] using h d.1
      have hrest : k = l := by
        refine ih hk hl fun name => ?_
        by_cases hn : name = d.1
        · rw [hn, valueIn_eq_none hd, valueIn_eq_none (hname ▸ he)]
        · have hn' : name ≠ e.1 := hname ▸ hn
          simpa [valueIn, hn, hn'] using h name
      rw [Prod.ext hname hvalue, hrest]

def empty : Variables α := ⟨[], List.Pairwise.nil⟩

instance : Inhabited (Variables α) := ⟨empty⟩

def get? (vars : Variables α) (name : Text) : Option α :=
  valueIn name vars.entries

def insert (vars : Variables α) (name : Text) (value : α) : Variables α :=
  ⟨insertIn name value vars.entries, sorted_insertIn vars.sorted⟩

/-- Later entries of the list win. -/
def ofList (entries : List (Text × α)) : Variables α :=
  entries.foldl (fun vars e => vars.insert e.1 e.2) empty

def names (vars : Variables α) : List Text :=
  vars.entries.map (·.1)

@[simp] theorem get?_empty (name : Text) : (empty : Variables α).get? name = none := rfl

theorem get?_insert (vars : Variables α) (name other : Text) (value : α) :
    (vars.insert name value).get? other = if other = name then some value else vars.get? other :=
  valueIn_insertIn name other value vars.entries

@[simp] theorem get?_insert_self (vars : Variables α) (name : Text) (value : α) :
    (vars.insert name value).get? name = some value := by
  simp [get?_insert]

theorem get?_insert_of_ne {vars : Variables α} {name other : Text} (value : α)
    (h : other ≠ name) : (vars.insert name value).get? other = vars.get? other := by
  simp [get?_insert, h]

@[ext] theorem ext {u v : Variables α} (h : ∀ name, u.get? name = v.get? name) : u = v := by
  cases u
  cases v
  congr
  exact eq_of_valueIn_eq ‹_› ‹_› h

theorem get?_eq_some_iff {vars : Variables α} {name : Text} {value : α} :
    vars.get? name = some value ↔ (name, value) ∈ vars.entries :=
  valueIn_eq_some_iff vars.sorted

theorem mem_names_iff {vars : Variables α} {name : Text} :
    name ∈ vars.names ↔ (vars.get? name).isSome = true := by
  unfold names get?
  induction vars.entries with
  | nil => simp [valueIn]
  | cons e rest ih => by_cases h : name = e.1 <;> simp_all [valueIn]

theorem mem_names_of_get? {vars : Variables α} {name : Text} {value : α}
    (h : vars.get? name = some value) : name ∈ vars.names :=
  mem_names_iff.mpr (by rw [h]; rfl)

theorem get?_eq_none_iff {vars : Variables α} {name : Text} :
    vars.get? name = none ↔ name ∉ vars.names := by
  rw [mem_names_iff, Bool.not_eq_true, Option.isSome_eq_false_iff, Option.isNone_iff_eq_none]

theorem mem_names_insert {vars : Variables α} {name other : Text} {value : α} :
    other ∈ (vars.insert name value).names ↔ other = name ∨ other ∈ vars.names := by
  rw [mem_names_iff, mem_names_iff, get?_insert]
  by_cases h : other = name <;> simp [h]

theorem names_insert_of_mem {vars : Variables α} {name : Text} (h : name ∈ vars.names) (value : α) :
    (vars.insert name value).names = vars.names :=
  map_fst_insertIn value vars.sorted h

end Variables

end Worksheet
