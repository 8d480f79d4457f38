import ThreeAddress.Proofs.Comments

/-! Document types. The end of a document type is the first closing angle outside of square
brackets, where every bracket counts, also one between quotes. So a document type is passed over as
a whole just if its brackets are closed and none of its angles stands outside of them. -/

namespace ThreeAddress

namespace Markup

/-! Square brackets. -/

/-- No bracket is open behind the text. One that is closed without having been opened does not
count. -/
def Outside (cs : List Char) : Prop := ∀ tail, tail <:+ cs → tail.count '[' ≤ tail.count ']'

/-- A closing angle behind the text is outside of brackets, and none in it is. -/
def EndsAtAngle (cs : List Char) : Prop :=
  Outside cs ∧ ∀ front, front ++ ['>'] <+: cs → ¬ Outside front

def bracket (depth : Nat) (c : Char) : Nat :=
  if c = '[' then depth + 1 else if c = ']' then depth - 1 else depth

def depthAfter (depth : Nat) (cs : List Char) : Nat := cs.foldl bracket depth

theorem depthAfter_cons (depth : Nat) (c : Char) (cs : List Char) :
    depthAfter depth (c :: cs) = depthAfter (bracket depth c) cs := rfl

theorem suffix_cons_forall {c : Char} {cs : List Char} {p : List Char → Prop} :
    (∀ tail, tail <:+ c :: cs → p tail) ↔ p (c :: cs) ∧ ∀ tail, tail <:+ cs → p tail := by
  constructor
  · intro h
    exact ⟨h _ (List.suffix_refl _), fun tail htail => h tail (htail.trans (List.suffix_cons c cs))⟩
  · rintro ⟨hwhole, hrest⟩ tail htail
    rcases List.suffix_cons_iff.mp htail with rfl | htail
    · exact hwhole
    · exact hrest tail htail

/-- The brackets that are open at the end are those of some end of the text that are not closed
in it. -/
theorem depthAfter_le_iff {depth n : Nat} {cs : List Char} :
    depthAfter depth cs ≤ n ↔ depth + cs.count '[' ≤ cs.count ']' + n ∧
      ∀ tail, tail <:+ cs → tail.count '[' ≤ tail.count ']' + n := by
  induction cs generalizing depth with
  | nil => simp [depthAfter]
  | cons c cs ih =>
    rw [depthAfter_cons, ih, suffix_cons_forall, ← and_assoc, and_congr_left_iff, bracket]
    intro htails
    have hcs := htails cs (List.suffix_refl cs)
    by_cases hopen : c = '['
    · subst hopen
      simp only [if_true, List.count_cons_self, List.count_cons_of_ne (show '[' ≠ ']' by decide)]
      omega
    by_cases hclose : c = ']'
    · subst hclose
      simp only [if_neg hopen, if_true, List.count_cons_self, List.count_cons_of_ne hopen]
      omega
    · simp only [if_neg hopen, if_neg hclose, List.count_cons_of_ne hopen,
        List.count_cons_of_ne hclose]
      omega

theorem outside_iff {cs : List Char} : Outside cs ↔ depthAfter 0 cs = 0 := by
  rw [← Nat.le_zero, depthAfter_le_iff]
  constructor
  · intro h
    exact ⟨by simpa using h cs (List.suffix_refl cs), h⟩
  · exact fun h => h.2

theorem Outside.of_append {cs more : List Char} (hmore : ']' ∉ more) (h : Outside (cs ++ more)) :
    Outside cs := by
  intro tail htail
  obtain ⟨front, rfl⟩ := htail
  have hcount := h (tail ++ more) ⟨front, by simp⟩
  rw [List.count_append, List.count_append, List.count_eq_zero.mpr hmore] at hcount
  omega

/-- A closing angle behind the text is outside of brackets, and none in it is, if `depth` are open
in front. -/
def EndsFrom (depth : Nat) (cs : List Char) : Prop :=
  depthAfter depth cs = 0 ∧ ∀ front, front ++ ['>'] <+: cs → depthAfter depth front ≠ 0

theorem endsAtAngle_iff {cs : List Char} : EndsAtAngle cs ↔ EndsFrom 0 cs := by
  simp only [EndsAtAngle, EndsFrom, outside_iff, ne_eq]

theorem endsFrom_nil {depth : Nat} : EndsFrom depth [] ↔ depth = 0 := by
  simp [EndsFrom, depthAfter]

theorem endsFrom_cons {depth : Nat} {c : Char} {cs : List Char} :
    EndsFrom depth (c :: cs) ↔ ¬ (c = '>' ∧ depth = 0) ∧ EndsFrom (bracket depth c) cs := by
  rw [EndsFrom, EndsFrom, depthAfter_cons]
  constructor
  · rintro ⟨hend, hfronts⟩
    refine ⟨?_, hend, fun front hfront => ?_⟩
    · rintro ⟨rfl, hdepth⟩
      exact hfronts [] (List.prefix_append ['>'] cs) hdepth
    · exact hfronts (c :: front) ((List.prefix_cons_inj c).mpr hfront)
  · rintro ⟨hhere, hend, hfronts⟩
    refine ⟨hend, fun front hfront => ?_⟩
    cases front with
    | nil =>
      obtain ⟨rfl, -⟩ := List.cons_prefix_cons.mp hfront
      exact fun hdepth => hhere ⟨rfl, hdepth⟩
    | cons b front =>
      obtain ⟨rfl, hrest⟩ := List.cons_prefix_cons.mp hfront
      exact hfronts front hrest

def isBracket (c : Char) : Bool := c == '[' || c == ']'

theorem bracket_of_not_isBracket {depth : Nat} {c : Char} (h : isBracket c = false) :
    bracket depth c = depth := by
  simp only [isBracket, Bool.or_eq_false_iff, beq_eq_false_iff_ne] at h
  rw [bracket, if_neg h.1, if_neg h.2]

/-- Characters that are neither brackets nor angles do not matter, and inside of brackets angles do
not matter either. -/
theorem endsFrom_append {depth : Nat} {cs : List Char} (rest : List Char)
    (h : cs.any isBracket = false) (hangle : '>' ∈ cs → depth ≠ 0) :
    EndsFrom depth (cs ++ rest) ↔ EndsFrom depth rest := by
  induction cs with
  | nil => rfl
  | cons c cs ih =>
    rw [List.any_cons, Bool.or_eq_false_iff] at h
    have hhere : ¬ (c = '>' ∧ depth = 0) := by
      rintro ⟨rfl, hdepth⟩
      exact hangle List.mem_cons_self hdepth
    rw [List.cons_append, endsFrom_cons, bracket_of_not_isBracket h.1,
      ih h.2 fun hmem => hangle (List.mem_cons_of_mem c hmem)]
    exact and_iff_right hhere

theorem endsFrom_concat {depth : Nat} {cs : List Char} {c : Char} (h : isBracket c = false)
    (hangle : c ≠ '>') : EndsFrom depth (cs ++ [c]) ↔ EndsFrom depth cs := by
  induction cs generalizing depth with
  | nil => rw [List.nil_append, endsFrom_cons, bracket_of_not_isBracket h]; simp [hangle]
  | cons d cs ih => rw [List.cons_append, endsFrom_cons, endsFrom_cons, ih]

/-! The end of a document type. -/

theorem doctypeLength?_eq_some {depth n : Nat} {cs : List Char} :
    doctypeLength? depth cs = some n ↔
      ∃ body rest, cs = body ++ '>' :: rest ∧ n = body.length + 1 ∧ EndsFrom depth body := by
  induction cs generalizing depth n with
  | nil => simp [doctypeLength?]
  | cons c cs ih =>
    rw [doctypeLength?]
    by_cases hhere : c = '>' ∧ depth = 0
    · rw [if_pos hhere]
      constructor
      · intro h
        exact ⟨[], cs, by rw [hhere.1]; rfl, (Option.some.inj h).symm, endsFrom_nil.mpr hhere.2⟩
      · rintro ⟨body, rest, hcut, rfl, hbody⟩
        cases body with
        | nil => rfl
        | cons b body =>
          obtain ⟨rfl, -⟩ := List.cons.inj hcut
          exact absurd hhere (endsFrom_cons.mp hbody).1
    · rw [if_neg hhere]
      change (doctypeLength? (bracket depth c) cs).map (· + 1) = some n ↔ _
      rw [Option.map_eq_some_iff]
      constructor
      · rintro ⟨m, hm, rfl⟩
        obtain ⟨body, rest, rfl, rfl, hbody⟩ := ih.mp hm
        exact ⟨c :: body, rest, rfl, rfl, endsFrom_cons.mpr ⟨hhere, hbody⟩⟩
      · rintro ⟨body, rest, hcut, rfl, hbody⟩
        cases body with
        | nil => exact absurd ⟨(List.cons.inj hcut).1, endsFrom_nil.mp hbody⟩ hhere
        | cons b body =>
          obtain ⟨rfl, hrest⟩ := List.cons.inj hcut
          exact ⟨_, ih.mpr ⟨body, rest, hrest, rfl, (endsFrom_cons.mp hbody).2⟩, rfl⟩

namespace Cursor

variable {c d : Cursor}

theorem skipDoctype_eq_ok :
    c.skipDoctype = .ok d ↔ ∃ body, EndsAtAngle body ∧ c.Passes (body ++ ['>']) d := by
  rw [skipDoctype]
  constructor
  · intro h
    split at h
    · rename_i n hn
      cases h
      obtain ⟨body, rest, hcut, rfl, hbody⟩ := doctypeLength?_eq_some.mp hn
      rw [← List.singleton_append, ← List.append_assoc] at hcut
      exact ⟨body, endsAtAngle_iff.mpr hbody, passes_skip hcut (by simp)⟩
    · cases h
  · rintro ⟨body, hbody, hpasses⟩
    have hlength : doctypeLength? 0 c.rest = some (body.length + 1) := by
      refine doctypeLength?_eq_some.mpr ⟨body, d.rest, ?_, rfl, endsAtAngle_iff.mp hbody⟩
      rw [hpasses.1, List.append_assoc]
      rfl
    rw [hlength]
    exact congrArg Except.ok (hpasses.skip_eq (by simp))

end Cursor

/-! Document types, as a document may contain them. -/

structure Entity where
  name : String
  value : String
  isName : IsName name.toList
  unquoted : ∀ c ∈ value.toList, c ≠ '"' ∧ c ≠ '%' ∧ c ≠ '&'

def Entity.text (e : Entity) : String := "<!ENTITY " ++ e.name ++ " \"" ++ e.value ++ "\">"

/-- A document type with a system literal, and perhaps with declarations of entities. -/
structure Doctype where
  name : String
  literal : String
  entities : Option (List Entity) := none
  isName : IsName name.toList
  unquoted : '"' ∉ literal.toList

namespace Doctype

def opening (t : Doctype) : String := "<!DOCTYPE " ++ t.name ++ " SYSTEM \""

def subset (t : Doctype) : String :=
  match t.entities with
  | none => ""
  | some es => "[" ++ String.join (es.map Entity.text) ++ "]"

def inside (t : Doctype) : String := t.opening ++ t.literal ++ "\"" ++ t.subset

def text (t : Doctype) : String := t.inside ++ ">"

/-- The literal has neither brackets nor closing angles, and the values of the entities have no
brackets. -/
structure Plain (t : Doctype) : Prop where
  literal : t.literal.toList.any isBracket = false
  angle : '>' ∉ t.literal.toList
  values : ∀ es, t.entities = some es → ∀ e ∈ es, e.value.toList.any isBracket = false

variable {t : Doctype}

theorem any_isBracket_of_isName {cs : List Char} (h : IsName cs) : cs.any isBracket = false := by
  rw [List.any_eq_false]
  intro c hc hbracket
  have hname := h.2 c hc
  simp only [isBracket, Bool.or_eq_true, beq_iff_eq] at hbracket
  rcases hbracket with rfl | rfl
  · exact absurd hname (by decide)
  · exact absurd hname (by decide)

theorem angle_not_mem_of_isName {cs : List Char} (h : IsName cs) : '>' ∉ cs := by
  intro hc
  exact absurd (h.2 '>' hc) (by decide)

theorem any_isBracket_opening (t : Doctype) : t.opening.toList.any isBracket = false := by
  rw [opening, String.toList_append, String.toList_append, List.any_append, List.any_append,
    any_isBracket_of_isName t.isName]
  rfl

theorem angle_not_mem_opening (t : Doctype) : '>' ∉ t.opening.toList := by
  rw [opening, String.toList_append, String.toList_append, List.mem_append, List.mem_append, not_or,
    not_or]
  exact ⟨⟨by decide, angle_not_mem_of_isName t.isName⟩, by decide⟩

theorem any_isBracket_entity {e : Entity} (h : e.value.toList.any isBracket = false) :
    e.text.toList.any isBracket = false := by
  simp only [Entity.text, String.toList_append, List.any_append, h,
    any_isBracket_of_isName e.isName]
  rfl

theorem toList_inside (t : Doctype) :
    t.inside.toList = t.opening.toList ++ (t.literal.toList ++ '"' :: t.subset.toList) := by
  simp [inside]

theorem endsAtAngle_inside (t : Doctype) :
    EndsAtAngle t.inside.toList ↔ EndsAtAngle (t.literal.toList ++ '"' :: t.subset.toList) := by
  rw [endsAtAngle_iff, endsAtAngle_iff, toList_inside, endsFrom_append _ t.any_isBracket_opening]
  exact fun hangle => absurd hangle t.angle_not_mem_opening

theorem endsAtAngle_literal (h : t.entities = none) :
    EndsAtAngle t.inside.toList ↔ EndsAtAngle t.literal.toList := by
  rw [endsAtAngle_inside, subset, h, endsAtAngle_iff, endsAtAngle_iff]
  exact endsFrom_concat rfl (by decide)

theorem endsAtAngle_of_plain (h : t.Plain) : EndsAtAngle t.inside.toList := by
  rw [endsAtAngle_inside, endsAtAngle_iff,
    endsFrom_append _ h.literal fun hangle => absurd hangle h.angle, endsFrom_cons,
    bracket_of_not_isBracket rfl]
  refine ⟨by decide, ?_⟩
  rw [subset]
  cases hentities : t.entities with
  | none => exact endsFrom_nil.mpr rfl
  | some es =>
    have hes : (String.join (es.map Entity.text)).toList.any isBracket = false := by
      rw [String.toList_join, List.any_flatMap, List.any_map, List.any_eq_false]
      intro e he
      simp [any_isBracket_entity (h.values es hentities e he)]
    rw [String.toList_append, String.toList_append, List.append_assoc]
    change EndsFrom 0 ('[' :: ((String.join (es.map Entity.text)).toList ++ [']']))
    have hopen : bracket 0 '[' ≠ 0 := by decide
    rw [endsFrom_cons, endsFrom_append [']'] hes fun _ => hopen, endsFrom_cons]
    exact ⟨by decide, by decide, endsFrom_nil.mpr rfl⟩

theorem toList_text (t : Doctype) : t.text.toList = t.inside.toList ++ ['>'] := by
  rw [text, String.toList_append]
  rfl

theorem toList_text_append (t : Doctype) (d : String) :
    (t.text ++ d).toList = t.inside.toList ++ '>' :: d.toList := by
  rw [String.toList_append, toList_text, List.append_assoc, List.singleton_append]

theorem opening_prefix (t : Doctype) : "<!DOCTYPE".toList <+: t.inside.toList := by
  have hblank : "<!DOCTYPE ".toList = "<!DOCTYPE".toList ++ [' '] := by decide
  rw [toList_inside, opening, String.toList_append, String.toList_append, hblank,
    List.append_assoc, List.append_assoc, List.append_assoc]
  exact List.prefix_append _ _

end Doctype

/-! Reading behind a document type. -/

def BeginsWithRoot (text : String) : Prop :=
  ∃ c rest, text.toList = '<' :: c :: rest ∧ isNameStart c = true

namespace Stage

variable {c : Cursor}

theorem step_of_doctype (h : c.startsWith "<!DOCTYPE" = true) :
    (Stage.prolog true).step c = do
      let d ← c.skipDoctype
      return .next (.prolog false) d := by
  have hspace := not_space_of_startsWith h rfl
  have hpi : ¬ c.startsWith "<?" = true := Cursor.not_startsWith h (by decide)
  have hcomment : ¬ c.startsWith "<!--" = true := Cursor.not_startsWith h (by decide)
  rw [step, stepProlog, if_neg hspace, if_neg hpi, if_neg hcomment, if_pos ⟨rfl, h⟩]

theorem run_doctype {body rest : List Char} (h : EndsAtAngle body)
    (hopen : "<!DOCTYPE".toList <+: body ++ '>' :: rest) (line : Nat) :
    run (.prolog true) ⟨line, body ++ '>' :: rest⟩ =
      run (.prolog false) ⟨line + (body ++ ['>']).count '\n', rest⟩ := by
  have hskip : (⟨line, body ++ '>' :: rest⟩ : Cursor).skipDoctype =
      .ok ⟨line + (body ++ ['>']).count '\n', rest⟩ := by
    refine Cursor.skipDoctype_eq_ok.mpr ⟨body, h, ?_, rfl⟩
    rw [List.append_assoc]
    rfl
  apply run_of_step
  rw [step_of_doctype (List.isPrefixOf_iff_prefix.mpr hopen), hskip]
  rfl

theorem run_doctype_unclosed {cs : List Char} (hopen : "<!DOCTYPE".toList <+: cs)
    (h : ∀ body rest, cs = body ++ '>' :: rest → ¬ EndsAtAngle body) (line : Nat) :
    ∃ line', run (.prolog true) ⟨line, cs⟩ = .error (.unexpectedEnd line') := by
  have hlength : doctypeLength? 0 cs = none := by
    rw [Option.eq_none_iff_forall_ne_some]
    intro n hn
    obtain ⟨body, rest, hcut, -, hbody⟩ := doctypeLength?_eq_some.mp hn
    exact h body rest hcut (endsAtAngle_iff.mpr hbody)
  have hskip : (⟨line, cs⟩ : Cursor).skipDoctype = .error (Cursor.ranOut ⟨line, cs⟩) := by
    rw [Cursor.skipDoctype, hlength]
  rw [run_eq, step_of_doctype (List.isPrefixOf_iff_prefix.mpr hopen), hskip]
  exact ⟨_, rfl⟩

theorem step_of_root {doctypeAllowed : Bool} {x : Char} {rest : List Char}
    (hx : isNameStart x = true) (line : Nat) :
    (Stage.prolog doctypeAllowed).step ⟨line, '<' :: x :: rest⟩ =
      openElement [] (Cursor.skip 1 ⟨line, '<' :: x :: rest⟩) := by
  have hmarkup (token : String) {y : Char} {ys : List Char} (ht : token.toList = '<' :: y :: ys)
      (hy : isNameStart y = false) :
      ¬ (⟨line, '<' :: x :: rest⟩ : Cursor).startsWith token = true := by
    have hother : y ≠ x := by
      rintro rfl
      exact absurd (hy.symm.trans hx) Bool.false_ne_true
    rw [Cursor.startsWith, ht, List.isPrefixOf_cons_cons, isPrefixOf_eq_false hother,
      Bool.and_false]
    exact Bool.false_ne_true
  have hspace : ¬ ('<' :: x :: rest).head?.any isSpace = true := Bool.false_ne_true
  rw [step, stepProlog, if_neg hspace, if_neg (hmarkup "<?" rfl (by decide)),
    if_neg (hmarkup "<!--" rfl (by decide)),
    if_neg fun hdoctype => hmarkup "<!DOCTYPE" rfl (by decide) hdoctype.2]
  rfl

theorem run_prolog_root {x : Char} {rest : List Char} (hx : isNameStart x = true) (line : Nat) :
    run (.prolog false) ⟨line, '<' :: x :: rest⟩ = run (.prolog true) ⟨line, '<' :: x :: rest⟩ := by
  rw [run_eq, run_eq, step_of_root hx, step_of_root hx]

end Stage

namespace Doctype

variable {t : Doctype} {d : String} {root : Element}

/-- The whole of a document type is passed over just if its last angle is the first that can be
its end. -/
theorem skipDoctype_iff (t : Doctype) (d : String) (line : Nat) :
    Cursor.skipDoctype ⟨line, (t.text ++ d).toList⟩ =
        .ok ⟨line + t.text.toList.count '\n', d.toList⟩ ↔ EndsAtAngle t.inside.toList := by
  rw [Cursor.skipDoctype_eq_ok, toList_text_append, toList_text]
  constructor
  · rintro ⟨body, hbody, hpiece, -⟩
    have hcut : t.inside.toList ++ ['>'] ++ d.toList = body ++ ['>'] ++ d.toList := by
      rw [← hpiece]
      simp
    exact List.append_cancel_right (List.append_cancel_right hcut) ▸ hbody
  · intro h
    exact ⟨_, h, by simp, rfl⟩

theorem readDocument_eq (t : Doctype) (d : String) :
    readDocument (t.text ++ d) =
      Stage.run (.prolog true) ⟨1, t.inside.toList ++ '>' :: d.toList⟩ := by
  obtain ⟨rest, hrest⟩ := t.opening_prefix
  rw [← toList_text_append, readDocument, toList_text_append, ← hrest]
  rfl

theorem readDocument_skipped (h : EndsAtAngle t.inside.toList) (hd : BeginsWithRoot d)
    (hread : readDocument d = .ok root) :
    readDocument (t.text ++ d) = .ok (root.shiftLines (t.text.toList.count '\n')) := by
  obtain ⟨x, rest, hroot, hx⟩ := hd
  have hrun : Stage.run (.prolog true) ⟨1, d.toList⟩ = .ok root := by
    rw [readDocument, hroot] at hread
    rw [hroot]
    exact hread
  have hopen := t.opening_prefix.trans (List.prefix_append _ ('>' :: d.toList))
  rw [readDocument_eq, Stage.run_doctype h hopen, toList_text, hroot, Stage.run_prolog_root hx,
    ← hroot]
  generalize (t.inside.toList ++ ['>']).count '\n' = n
  exact Stage.run_shiftLines n hrun

theorem readDocument_cut_short {front back : List Char} (h : EndsAtAngle front)
    (hinside : t.inside.toList = front ++ '>' :: back) (hback : '<' ∉ back) (d : String) :
    ∃ line, readDocument (t.text ++ d) = .error (.expected line .rootElement) := by
  have hopen := t.opening_prefix.trans (List.prefix_append _ ('>' :: d.toList))
  rw [hinside, List.append_assoc, List.cons_append] at hopen
  rw [readDocument_eq, hinside, List.append_assoc, List.cons_append, Stage.run_doctype h hopen]
  exact Stage.run_text_no_root hback (by decide) (by decide) _ _

theorem readDocument_unclosed (hopen : ¬ Outside t.inside.toList)
    (hfronts : ∀ front, front ++ ['>'] <+: t.inside.toList → ¬ Outside front)
    (hd : ']' ∉ d.toList) : ∃ line, readDocument (t.text ++ d) = .error (.unexpectedEnd line) := by
  rw [readDocument_eq]
  apply Stage.run_doctype_unclosed (t.opening_prefix.trans (List.prefix_append _ _))
  rintro body rest hcut ⟨houtside, -⟩
  rcases List.append_eq_append_iff.mp hcut with ⟨more, rfl, hmore⟩ | ⟨more, hmore, hrest⟩
  · -- The angle would stand in the text behind the document type.
    have hclose : ']' ∉ more := by
      intro hmem
      have hmem' : ']' ∈ '>' :: d.toList := hmore ▸ List.mem_append_left _ hmem
      rcases List.mem_cons.mp hmem' with hangle | hmem'
      · exact absurd hangle (by decide)
      · exact hd hmem'
    exact hopen (houtside.of_append hclose)
  · cases more with
    | nil =>
      rw [List.append_nil] at hmore
      exact hopen (hmore ▸ houtside)
    | cons c more =>
      obtain ⟨rfl, -⟩ := List.cons.inj hrest
      exact hfronts body ⟨more, by rw [hmore]; simp⟩ houtside

end Doctype

/-- A document type ends at its first closing angle outside of square brackets, and quotes do not
matter for this. It is passed over as a whole just if this is its last one, which holds if the
literal has neither brackets nor closing angles and the values of the entities have no brackets;
without declarations it depends on the literal alone. The elements behind it are then read as if it
were not there, on the lines where they are. Otherwise what stands between the end and the last
angle is text in front of the root, or, if some bracket is left open, the text ends within the
document type. -/
theorem doctype_skipped_up_to_angle (t : Doctype) :
    (∀ d line, Cursor.skipDoctype ⟨line, (t.text ++ d).toList⟩ =
        .ok ⟨line + t.text.toList.count '\n', d.toList⟩ ↔ EndsAtAngle t.inside.toList) ∧
      (t.Plain → EndsAtAngle t.inside.toList) ∧
      (t.entities = none → (EndsAtAngle t.inside.toList ↔ EndsAtAngle t.literal.toList)) ∧
      (∀ d root, EndsAtAngle t.inside.toList → BeginsWithRoot d → readDocument d = .ok root →
        readDocument (t.text ++ d) = .ok (root.shiftLines (t.text.toList.count '\n'))) ∧
      (∀ d front back, t.inside.toList = front ++ '>' :: back → EndsAtAngle front → '<' ∉ back →
        ∃ line, readDocument (t.text ++ d) = .error (.expected line .rootElement)) ∧
      ∀ d : String, ¬ Outside t.inside.toList →
        (∀ front, front ++ ['>'] <+: t.inside.toList → ¬ Outside front) → ']' ∉ d.toList →
        ∃ line, readDocument (t.text ++ d) = .error (.unexpectedEnd line) := by
  refine ⟨t.skipDoctype_iff, Doctype.endsAtAngle_of_plain, Doctype.endsAtAngle_literal, ?_, ?_, ?_⟩
  · intro d root hend hd hread
    exact Doctype.readDocument_skipped hend hd hread
  · intro d front back hinside hfront hback
    exact Doctype.readDocument_cut_short hfront hinside hback d
  · intro d hopen hfronts hd
    exact Doctype.readDocument_unclosed hopen hfronts hd

/-- The system literal `x>y` ends its document type, and the root element is not found. -/
theorem doctype_ended_by_its_literal :
    ∃ (t : Doctype) (d : String) (root : Element),
      t.name = "a" ∧ t.literal = "x>y" ∧ t.entities = none ∧
        t.text ++ d = "<!DOCTYPE a SYSTEM \"x>y\"><a/>" ∧ BeginsWithRoot d ∧
        readDocument d = .ok root ∧
        readDocument (t.text ++ d) = .error (.expected 1 .rootElement) := by
  have hread : readDocument "<a/>" = .ok ⟨"a", [], "", [], 1⟩ := rfl
  have hwhole : readDocument "<!DOCTYPE a SYSTEM \"x>y\"><a/>" =
      .error (.expected 1 .rootElement) := rfl
  exact ⟨⟨"a", "x>y", none, by decide, by decide⟩, "<a/>", _, rfl, rfl, rfl, rfl,
    ⟨'a', ['/', '>'], rfl, rfl⟩, hread, hwhole⟩

end Markup

end ThreeAddress
