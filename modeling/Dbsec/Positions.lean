import Mathlib

/-! The places of a list where a predicate holds, what stands there, and writing other
values into them one place at a time. Written values of the same kind leave the places
where they were, so reading them again finds what was written and writing the old ones
back restores the list. -/
namespace Dbsec.Positions

variable {α : Type} (holds : α → Bool)

def positions (values : List α) : List Nat :=
  (values.zipIdx.filter fun entry => holds entry.1).map Prod.snd

def scatter (values : List α) (places : List Nat) (new : List α) : List α :=
  (places.zip new).foldl (fun written entry => written.set entry.1 entry.2) values

def refill : List α → List α → List α
  | [], _ => []
  | value :: rest, new =>
    if holds value then
      match new with
      | [] => value :: refill rest []
      | first :: others => first :: refill rest others
    else value :: refill rest new

variable {holds}

theorem positions_cons (value : α) (rest : List α) :
    positions holds (value :: rest) =
      (if holds value then [0] else []) ++ (positions holds rest).map (· + 1) := by
  have shifted : (((rest.zipIdx.map (Prod.map id (· + 1))).filter fun entry => holds entry.1).map
      Prod.snd) = (positions holds rest).map (· + 1) := by
    rw [List.filter_map, List.map_map, positions, List.map_map]
    rfl
  rw [positions, List.zipIdx_cons', List.filter_cons]
  split
  · rw [List.map_cons, shifted]
    rfl
  · rw [shifted]
    rfl

theorem refill_kept {value : α} (other : holds value = false) (rest new : List α) :
    refill holds (value :: rest) new = value :: refill holds rest new := by
  rw [refill.eq_def]
  simp only [other, Bool.false_eq_true, if_false]

theorem refill_written {value : α} (one : holds value = true) (rest : List α) (first : α)
    (others : List α) :
    refill holds (value :: rest) (first :: others) = first :: refill holds rest others := by
  rw [refill.eq_def]
  simp only [one, if_true]

theorem refill_spent (values : List α) : refill holds values [] = values := by
  induction values with
  | nil => rfl
  | cons value rest ih =>
    rw [refill.eq_def]
    simp only [ih, ite_self]

theorem scatter_shifted (value : α) (rest : List α) (places : List Nat) (new : List α) :
    scatter (value :: rest) (places.map (· + 1)) new = value :: scatter rest places new := by
  unfold scatter
  induction places generalizing rest new with
  | nil => rfl
  | cons place others ih =>
    cases new with
    | nil => rfl
    | cons first more => exact ih (rest.set place first) more

theorem scatter_positions (values new : List α) :
    scatter values (positions holds values) new = refill holds values new := by
  induction values generalizing new with
  | nil => rfl
  | cons value rest ih =>
    rw [positions_cons]
    by_cases one : holds value = true
    · rw [if_pos one]
      cases new with
      | nil => rw [refill_spent, scatter, List.zip_nil_right, List.foldl_nil]
      | cons first others =>
        have written :
            scatter (value :: rest) ([0] ++ (positions holds rest).map (· + 1)) (first :: others) =
            scatter (first :: rest) ((positions holds rest).map (· + 1)) others := rfl
        rw [written, scatter_shifted, ih, refill_written one]
    · rw [if_neg one, List.nil_append, scatter_shifted, ih, refill_kept (Bool.eq_false_iff.mpr one)]

theorem positions_read (values : List α) :
    (positions holds values).map (values[·]?) = (values.filter holds).map some := by
  induction values with
  | nil => rfl
  | cons value rest ih =>
    have later : ((positions holds rest).map (· + 1)).map ((value :: rest)[·]?) =
        (rest.filter holds).map some := by
      rw [List.map_map, ← ih]
      exact List.map_congr_left fun place _ => List.getElem?_cons_succ
    rw [positions_cons, List.map_append, later, List.filter_cons]
    split
    · rfl
    · rfl

theorem positions_length (values : List α) :
    (positions holds values).length = (values.filter holds).length := by
  rw [← List.length_map (f := (values[·]?)), positions_read, List.length_map]

section Refill

variable {values new : List α}

def Fits (holds : α → Bool) (values new : List α) : Prop :=
  new.length = (values.filter holds).length ∧ ∀ value ∈ new, holds value = true

theorem Fits.cons {value : α} {rest : List α} (fits : Fits holds (value :: rest) new) :
    holds value = false ∧ Fits holds rest new ∨
      holds value = true ∧ ∃ first others, new = first :: others ∧ holds first = true ∧
        Fits holds rest others := by
  obtain ⟨counted, kind⟩ := fits
  by_cases one : holds value = true
  · right
    rw [List.filter_cons, if_pos one, List.length_cons] at counted
    cases new with
    | nil => cases counted
    | cons first others =>
      refine ⟨one, first, others, rfl, kind first List.mem_cons_self, Nat.succ.inj counted, ?_⟩
      exact fun value listed => kind value (List.mem_cons_of_mem _ listed)
  · left
    rw [List.filter_cons, if_neg one] at counted
    exact ⟨Bool.eq_false_iff.mpr one, counted, kind⟩

theorem refill_filter (fits : Fits holds values new) :
    (refill holds values new).filter holds = new := by
  induction values generalizing new with
  | nil => exact (List.length_eq_zero_iff.mp fits.1).symm
  | cons value rest ih =>
    rcases fits.cons with ⟨other, fits⟩ | ⟨one, first, others, rfl, kind, fits⟩
    · rw [refill_kept other, List.filter_cons, other, if_neg Bool.false_ne_true, ih fits]
    · rw [refill_written one, List.filter_cons, if_pos kind, ih fits]

theorem refill_shape (fits : Fits holds values new) :
    List.Forall₂
      (fun old written => holds old = holds written ∧ (holds old = false → written = old))
      values (refill holds values new) := by
  induction values generalizing new with
  | nil => exact .nil
  | cons value rest ih =>
    rcases fits.cons with ⟨other, fits⟩ | ⟨one, first, others, rfl, kind, fits⟩
    · rw [refill_kept other]
      exact .cons ⟨rfl, fun _ => rfl⟩ (ih fits)
    · rw [refill_written one]
      refine .cons ⟨one.trans kind.symm, fun other => ?_⟩ (ih fits)
      rw [one] at other
      cases other

theorem refill_refill (fits : Fits holds values new) :
    refill holds (refill holds values new) (values.filter holds) = values := by
  induction values generalizing new with
  | nil => rfl
  | cons value rest ih =>
    rcases fits.cons with ⟨other, fits⟩ | ⟨one, first, others, rfl, kind, fits⟩
    · rw [refill_kept other, refill_kept other, List.filter_cons, other, if_neg Bool.false_ne_true,
        ih fits]
    · rw [refill_written one, List.filter_cons, if_pos one, refill_written kind, ih fits]

end Refill

end Dbsec.Positions
