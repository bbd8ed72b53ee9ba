/-!
Finite maps as lists of entries in strictly ascending key order. A map has one such list, so two
maps with the same entries are equal, and its entries come out sorted whatever order they went in.
-/

namespace Cogrouping

structure Dictionary (κ : Type) [Ord κ] (α : Type) where
  entries : List (κ × α)
  ascending : entries.Pairwise fun earlier later => compare earlier.1 later.1 = .lt

namespace Dictionary

variable {κ α : Type} [Ord κ]

def empty : Dictionary κ α := ⟨[], .nil⟩

instance : EmptyCollection (Dictionary κ α) := ⟨empty⟩
instance : Inhabited (Dictionary κ α) := ⟨empty⟩

instance [DecidableEq κ] [DecidableEq α] : DecidableEq (Dictionary κ α) := fun left right =>
  if same : left.entries = right.entries then
    .isTrue (by cases left; cases right; cases same; rfl)
  else .isFalse fun equal => same (congrArg entries equal)

def keys (map : Dictionary κ α) : List κ := map.entries.map Prod.fst

def values (map : Dictionary κ α) : List α := map.entries.map Prod.snd

def find? (map : Dictionary κ α) (key : κ) : Option α :=
  (map.entries.find? fun entry => compare entry.1 key == .eq).map Prod.snd

def contains (map : Dictionary κ α) (key : κ) : Bool := (map.find? key).isSome

def place (key : κ) (value : α) : List (κ × α) → List (κ × α)
  | [] => [(key, value)]
  | entry :: rest =>
      match compare key entry.1 with
      | .lt => (key, value) :: entry :: rest
      | .eq => (key, value) :: rest
      | .gt => entry :: place key value rest

theorem mem_place {key : κ} {value : α} {entry : κ × α} {entries : List (κ × α)}
    (member : entry ∈ place key value entries) : entry = (key, value) ∨ entry ∈ entries := by
  induction entries with
  | nil => simpa [place] using member
  | cons head rest ih =>
      simp only [place] at member
      split at member
      · simpa using member
      · rcases List.mem_cons.mp member with same | later
        · exact .inl same
        · exact .inr (List.mem_cons_of_mem _ later)
      · rcases List.mem_cons.mp member with same | later
        · exact .inr (by simp [same])
        · rcases ih later with same | old
          · exact .inl same
          · exact .inr (List.mem_cons_of_mem _ old)

variable [Std.TransOrd κ] [Std.LawfulEqOrd κ]

theorem place_ascending (key : κ) (value : α) {entries : List (κ × α)}
    (sorted : entries.Pairwise fun earlier later => compare earlier.1 later.1 = .lt) :
    (place key value entries).Pairwise fun earlier later => compare earlier.1 later.1 = .lt := by
  induction entries with
  | nil => simp [place]
  | cons head rest ih =>
      obtain ⟨first, tail⟩ := List.pairwise_cons.mp sorted
      simp only [place]
      split
      · rename_i below
        refine List.pairwise_cons.mpr ⟨fun later member => ?_, sorted⟩
        rcases List.mem_cons.mp member with same | old
        · simpa [same] using below
        · exact Std.TransCmp.lt_trans below (first later old)
      · rename_i same
        have equal := Std.LawfulEqOrd.eq_of_compare same
        refine List.pairwise_cons.mpr ⟨fun later member => ?_, tail⟩
        simpa [equal] using first later member
      · rename_i above
        refine List.pairwise_cons.mpr ⟨fun later member => ?_, ih tail⟩
        rcases mem_place member with same | old
        · simpa [same] using Std.OrientedCmp.lt_of_gt above
        · exact first later old

def insert (map : Dictionary κ α) (key : κ) (value : α) : Dictionary κ α :=
  ⟨place key value map.entries, place_ascending key value map.ascending⟩

/-- The map of a list of entries; of two with one key the later counts. -/
def ofList (entries : List (κ × α)) : Dictionary κ α :=
  entries.foldl (fun map entry => map.insert entry.1 entry.2) empty

end Dictionary

end Cogrouping
