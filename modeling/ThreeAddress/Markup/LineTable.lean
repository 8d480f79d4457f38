/-!
The lines of a text. A table holds the places where they start, and the line of a place is looked
up in it by halving.
-/

namespace ThreeAddress.Markup

/-- The places right behind the newlines of a text that begins at `pos`, counted in bytes. -/
def lineStartsFrom (pos : Nat) : List Char → List Nat
  | [] => []
  | c :: cs =>
    let next := pos + c.utf8Size
    if c = '\n' then next :: lineStartsFrom next cs else lineStartsFrom next cs

theorem utf8ByteSize_ofList_cons (c : Char) (cs : List Char) :
    (String.ofList (c :: cs)).utf8ByteSize = c.utf8Size + (String.ofList cs).utf8ByteSize := by
  rw [← List.singleton_append, String.ofList_append, String.utf8ByteSize_append,
    ← String.singleton_eq_ofList, String.utf8ByteSize_singleton]

theorem bounds_of_mem_lineStartsFrom {pos start : Nat} {cs : List Char}
    (h : start ∈ lineStartsFrom pos cs) :
    pos < start ∧ start ≤ pos + (String.ofList cs).utf8ByteSize := by
  induction cs generalizing pos with
  | nil => cases h
  | cons c cs ih =>
    have hpos := c.utf8Size_pos
    have hlater (h : start ∈ lineStartsFrom (pos + c.utf8Size) cs) :
        pos < start ∧ start ≤ pos + (c.utf8Size + (String.ofList cs).utf8ByteSize) := by
      have hbounds := ih h
      omega
    rw [utf8ByteSize_ofList_cons]
    rw [lineStartsFrom] at h
    split at h
    · rcases List.mem_cons.mp h with rfl | h
      · omega
      · exact hlater h
    · exact hlater h

theorem ascending_lineStartsFrom (pos : Nat) (cs : List Char) :
    (lineStartsFrom pos cs).Pairwise (· < ·) := by
  induction cs generalizing pos with
  | nil => exact .nil
  | cons c cs ih =>
    rw [lineStartsFrom]
    split
    · exact .cons (fun _ h => (bounds_of_mem_lineStartsFrom h).1) (ih _)
    · exact ih _

theorem length_lineStartsFrom (pos : Nat) (cs : List Char) :
    (lineStartsFrom pos cs).length = cs.count '\n' := by
  induction cs generalizing pos with
  | nil => rfl
  | cons c cs ih =>
    rw [lineStartsFrom]
    split
    · rename_i hc
      rw [hc, List.length_cons, ih, List.count_cons_self]
    · rename_i hc
      rw [ih, List.count_cons_of_ne hc]

theorem lineStartsFrom_append (pos : Nat) (front back : List Char) :
    lineStartsFrom pos (front ++ back) = lineStartsFrom pos front ++
      lineStartsFrom (pos + (String.ofList front).utf8ByteSize) back := by
  induction front generalizing pos with
  | nil => rfl
  | cons c front ih =>
    rw [utf8ByteSize_ofList_cons, ← Nat.add_assoc, List.cons_append, lineStartsFrom,
      lineStartsFrom]
    split
    · rw [ih, List.cons_append]
    · exact ih _

structure LineTable where
  starts : Array Nat
  ascending : starts.toList.Pairwise (· < ·)

namespace LineTable

def ofText (text : String) : LineTable where
  starts := (0 :: lineStartsFrom 0 text.toList).toArray
  ascending := .cons (fun _ h => (bounds_of_mem_lineStartsFrom h).1)
    (ascending_lineStartsFrom 0 text.toList)

/-- How many lines start at `pos` or before, if those with an index below `lo` do and those from
`hi` on do not. -/
def search (t : LineTable) (pos lo hi : Nat) (hhi : hi ≤ t.starts.size) : Nat :=
  if h : lo < hi then
    have hmid : (lo + hi) / 2 < t.starts.size := by omega
    if t.starts[(lo + hi) / 2] ≤ pos then t.search pos ((lo + hi) / 2 + 1) hi hhi
    else t.search pos lo ((lo + hi) / 2) (by omega)
  else lo
termination_by hi - lo

def lineAt (t : LineTable) (pos : Nat) : Nat := t.search pos 0 t.starts.size (Nat.le_refl _)

variable {t : LineTable} {pos lo hi : Nat}

theorem le_of_mem_take (hlo : lo < t.starts.size) (hle : t.starts[lo] ≤ pos) :
    ∀ start ∈ t.starts.toList.take (lo + 1), start ≤ pos := by
  intro start hstart
  obtain ⟨i, hi, rfl⟩ := List.mem_take_iff_getElem.mp hstart
  rcases Nat.lt_or_eq_of_le (Nat.le_of_lt_succ (Nat.lt_of_lt_of_le hi (Nat.min_le_left _ _))) with
    hlt | rfl
  · have hless := List.pairwise_iff_getElem.mp t.ascending i lo (by omega) hlo hlt
    exact Nat.le_trans (Nat.le_of_lt hless) hle
  · exact hle

theorem lt_of_mem_drop (hhi : hi < t.starts.size) (hlt : pos < t.starts[hi]) :
    ∀ start ∈ t.starts.toList.drop hi, pos < start := by
  intro start hstart
  obtain ⟨i, hi', rfl⟩ := List.mem_drop_iff_getElem.mp hstart
  cases i with
  | zero => exact hlt
  | succ i =>
    have hless := List.pairwise_iff_getElem.mp t.ascending hi (hi + (i + 1)) hhi (by omega)
      (by omega)
    exact Nat.lt_trans hlt hless

/-- The invariant of the search: what lies in front of the part that is left has been found to
start early enough, and what lies behind it too late. -/
theorem search_eq (hhi : hi ≤ t.starts.size) (hlo : lo ≤ hi)
    (hfront : ∀ start ∈ t.starts.toList.take lo, start ≤ pos)
    (hback : ∀ start ∈ t.starts.toList.drop hi, pos < start) :
    t.search pos lo hi hhi = t.starts.toList.countP (· ≤ pos) := by
  induction hn : hi - lo using Nat.strongRecOn generalizing lo hi with
  | ind n ih =>
    rw [search]
    split
    · rename_i hlt
      have hmid : (lo + hi) / 2 < t.starts.size := by omega
      dsimp only
      split
      · rename_i hle
        exact ih _ (by omega) hhi (by omega) (le_of_mem_take hmid hle) hback rfl
      · rename_i hle
        exact ih _ (by omega) _ (by omega) hfront (lt_of_mem_drop hmid (by omega)) rfl
    · -- Nothing is left to search, so that the two parts are the whole table.
      obtain rfl : lo = hi := by omega
      have hall : (t.starts.toList.take lo).countP (· ≤ pos) = lo := by
        rw [List.countP_eq_length.mpr fun start hstart => decide_eq_true (hfront start hstart),
          List.length_take, Array.length_toList]
        omega
      have hnone : (t.starts.toList.drop lo).countP (· ≤ pos) = 0 := by
        refine List.countP_eq_zero.mpr fun start hstart => ?_
        simpa using hback start hstart
      rw [← List.take_append_drop lo t.starts.toList, List.countP_append, hall, hnone,
        Nat.add_zero]

theorem lineAt_eq (t : LineTable) (pos : Nat) :
    t.lineAt pos = t.starts.toList.countP (· ≤ pos) := by
  refine search_eq _ (Nat.zero_le _) ?_ ?_
  · intro start hstart
    cases hstart
  · intro start hstart
    rw [← Array.length_toList, List.drop_length] at hstart
    cases hstart

/-- The line that is looked up is the one that is counted. -/
theorem lineAt_ofText (front back : String) :
    (ofText (front ++ back)).lineAt front.utf8ByteSize = 1 + front.toList.count '\n' := by
  have hsize := Nat.zero_add (String.ofList front.toList).utf8ByteSize
  have hfront : (lineStartsFrom 0 front.toList).countP (· ≤ front.utf8ByteSize) =
      front.toList.count '\n' := by
    rw [← length_lineStartsFrom 0, List.countP_eq_length]
    intro start hstart
    have hbounds := bounds_of_mem_lineStartsFrom hstart
    rw [hsize, String.ofList_toList] at hbounds
    exact decide_eq_true hbounds.2
  have hback : (lineStartsFrom front.utf8ByteSize back.toList).countP (· ≤ front.utf8ByteSize) =
      0 := by
    refine List.countP_eq_zero.mpr fun start hstart => ?_
    simpa using (bounds_of_mem_lineStartsFrom hstart).1
  rw [lineAt_eq, ofText, List.toList_toArray, String.toList_append, lineStartsFrom_append, hsize,
    String.ofList_toList, List.countP_cons, if_pos (decide_eq_true (Nat.zero_le _)),
    List.countP_append, hfront, hback, Nat.add_zero, Nat.add_comm]

end LineTable

end ThreeAddress.Markup
