import Mathlib.Data.List.Induction
import ThreeAddress.CommandLine
import ThreeAddress.Proofs.Rearrangement

/-! Which command lines are accepted, what they ask for, and which error is reported for the
others. The arguments are taken from left to right; what has been taken so far is always a list of
flags with values, each flag at most once, and the settings are these values. -/

namespace ThreeAddress.CommandLine

/-! What arguments can be. -/

def Flag.argument (flag : Flag) (value : String) : String := flag.name ++ "=" ++ value

def Settings.arguments (s : Settings) : List String :=
  (s.source.map (Flag.argument .source)).toList ++ (s.input.map (Flag.argument .input)).toList

/-- What is wrong with an argument, given those in front of it. One that lacks its value is not
asked whether it repeats a flag. -/
inductive Wrong (front : List String) : String → Error → Prop where
  | unknown {argument} (hbare : ∀ flag : Flag, argument ≠ flag.name)
      (hvalue : ∀ (flag : Flag) value, argument ≠ flag.argument value) :
      Wrong front argument (.unknownArgument argument)
  | bare (flag : Flag) : Wrong front flag.name (.missingValue flag)
  | valueless (flag : Flag) : Wrong front (flag.argument "") (.missingValue flag)
  | again {flag : Flag} {value earlier} (hvalue : value ≠ "")
      (hearlier : flag.argument earlier ∈ front) :
      Wrong front (flag.argument value) (.repeated flag)

def Faultless (arguments : List String) : Prop :=
  ∀ front argument back e, arguments = front ++ argument :: back → ¬ Wrong front argument e

/-- The error of the leftmost argument that something is wrong with. -/
def FirstWrong (arguments : List String) (e : Error) : Prop :=
  ∃ front argument back, arguments = front ++ argument :: back ∧ Faultless front ∧
    Wrong front argument e

theorem faultless_nil : Faultless [] := by
  intro front argument back e h
  nomatch List.append_eq_nil_iff.mp h.symm

theorem Faultless.concat {front : List String} {argument : String} (hfront : Faultless front)
    (h : ∀ e, ¬ Wrong front argument e) : Faultless (front ++ [argument]) := by
  intro front' argument' back e heq
  rcases List.eq_nil_or_concat back with rfl | ⟨back, last, rfl⟩
  · obtain ⟨rfl, hlast⟩ := List.append_inj' heq rfl
    obtain rfl := List.singleton_inj.mp hlast
    exact h e
  · rw [List.concat_eq_append, ← List.cons_append, ← List.append_assoc] at heq
    exact hfront front' argument' back e (List.append_inj_left' heq rfl)

theorem Faultless.not_firstWrong {arguments : List String} (h : Faultless arguments) (e : Error) :
    ¬ FirstWrong arguments e := by
  rintro ⟨front, argument, back, heq, -, hwrong⟩
  exact h front argument back e heq hwrong

theorem FirstWrong.append {arguments : List String} {e : Error} (h : FirstWrong arguments e)
    (more : List String) : FirstWrong (arguments ++ more) e := by
  obtain ⟨front, argument, back, rfl, hfront, hwrong⟩ := h
  exact ⟨front, argument, back ++ more, List.append_assoc _ _ _, hfront, hwrong⟩

theorem toList_argument (flag : Flag) (value : String) :
    (flag.argument value).toList = flag.name.toList ++ '=' :: value.toList := by
  simp [Flag.argument, String.toList_append]

/-- The names of the flags differ in their third character. -/
theorem flag_unique {flag flag' : Flag} {rest rest' : List Char}
    (h : flag.name.toList ++ rest = flag'.name.toList ++ rest') : flag = flag' ∧ rest = rest' := by
  have hthird := congrArg (fun cs => cs[2]?) h
  cases flag with
  | source =>
    cases flag' with
    | source => exact ⟨rfl, List.append_cancel_left h⟩
    | input => exact absurd hthird (show some 's' ≠ some 'i' by decide)
  | input =>
    cases flag' with
    | source => exact absurd hthird (show some 'i' ≠ some 's' by decide)
    | input => exact ⟨rfl, List.append_cancel_left h⟩

theorem flag?_eq_some {argument : String} {flag : Flag} {rest : List Char} :
    flag? argument = some (flag, rest) ↔ argument.toList = flag.name.toList ++ rest := by
  have found {flag : Flag} {rest : List Char} (h : flag? argument = some (flag, rest)) :
      argument.toList = flag.name.toList ++ rest := by
    obtain ⟨flag', -, h⟩ := List.exists_of_findSome?_eq_some h
    obtain ⟨rest', hprefix, h⟩ := Option.map_eq_some_iff.mp h
    obtain ⟨rfl, rfl⟩ := Prod.mk.inj h
    exact (List.append_eq_of_isPrefixOf?_eq_some hprefix).symm
  refine ⟨found, fun h => ?_⟩
  cases hflag : flag? argument with
  | some pair =>
    obtain ⟨rfl, rfl⟩ := flag_unique ((found hflag).symm.trans h)
    rfl
  | none =>
    have hmem : flag ∈ [Flag.source, Flag.input] := by cases flag <;> simp
    have hnone := List.findSome?_eq_none_iff.mp hflag flag hmem
    rw [List.isPrefixOf?_eq_some_iff_append_eq.mpr h.symm] at hnone
    nomatch hnone

theorem argument_inj {flag flag' : Flag} {value value' : String} :
    flag.argument value = flag'.argument value' ↔ flag = flag' ∧ value = value' := by
  constructor
  · intro h
    rw [← String.toList_inj, toList_argument, toList_argument] at h
    obtain ⟨rfl, hrest⟩ := flag_unique h
    exact ⟨rfl, String.toList_inj.mp (List.cons.inj hrest).2⟩
  · rintro ⟨rfl, rfl⟩
    rfl

theorem argument_ne_help (flag : Flag) (value : String) : flag.argument value ≠ "--help" := by
  intro h
  rw [← String.toList_inj, toList_argument] at h
  have hthird := congrArg (fun cs => cs[2]?) h
  cases flag with
  | source => exact absurd hthird (show some 's' ≠ some 'h' by decide)
  | input => exact absurd hthird (show some 'i' ≠ some 'h' by decide)

/-! Taking one argument. -/

namespace Settings

variable {s t : Settings} {flag : Flag}

theorem add_argument {value : String} (hvalue : value ≠ "") :
    s.add (flag.argument value) =
      if (s.get? flag).isSome then .error (.repeated flag) else .ok (s.set flag value) := by
  obtain ⟨c, cs, hcons⟩ := List.exists_cons_of_ne_nil (mt String.toList_eq_nil_iff.mp hvalue)
  have hflag : flag? (flag.argument value) = some (flag, '=' :: c :: cs) := by
    rw [flag?_eq_some, toList_argument, hcons]
  have hwhole : String.ofList (c :: cs) = value := by rw [← hcons, String.ofList_toList]
  simp only [add, hflag, hwhole]

theorem add_name : s.add flag.name = .error (.missingValue flag) := by
  have hflag : flag? flag.name = some (flag, []) := by rw [flag?_eq_some, List.append_nil]
  simp only [add, hflag]

theorem add_valueless : s.add (flag.argument "") = .error (.missingValue flag) := by
  have hflag : flag? (flag.argument "") = some (flag, ['=']) := by
    rw [flag?_eq_some, toList_argument]
    rfl
  simp only [add, hflag]

theorem add_unknown {argument : String} (hbare : ∀ flag : Flag, argument ≠ flag.name)
    (hvalue : ∀ (flag : Flag) value, argument ≠ flag.argument value) :
    s.add argument = .error (.unknownArgument argument) := by
  have hshape {flag : Flag} {rest : List Char} (h : flag? argument = some (flag, rest)) :
      rest ≠ [] ∧ ∀ value, rest ≠ '=' :: value := by
    rw [flag?_eq_some] at h
    constructor
    · rintro rfl
      exact hbare flag (String.toList_inj.mp (by rw [h, List.append_nil]))
    · rintro value rfl
      refine hvalue flag (String.ofList value) (String.toList_inj.mp ?_)
      rw [h, toList_argument, String.toList_ofList]
  unfold add
  split
  · rfl
  · rename_i h
    exact absurd rfl (hshape h).1
  · rename_i h
    exact absurd rfl ((hshape h).2 _)
  · rename_i h
    exact absurd rfl ((hshape h).2 _)
  · rfl

theorem argument_cases (argument : String) :
    (∃ (flag : Flag) (value : String), value ≠ "" ∧ argument = flag.argument value) ∨
      ∃ e, (∀ s : Settings, s.add argument = .error e) ∧ ∀ front, Wrong front argument e := by
  by_cases hvalue : ∃ (flag : Flag) (value : String), argument = flag.argument value
  · obtain ⟨flag, value, rfl⟩ := hvalue
    by_cases hempty : value = ""
    · subst hempty
      exact .inr ⟨_, fun s => add_valueless, fun front => .valueless flag⟩
    · exact .inl ⟨flag, value, hempty, rfl⟩
  by_cases hbare : ∃ flag : Flag, argument = flag.name
  · obtain ⟨flag, rfl⟩ := hbare
    exact .inr ⟨_, fun s => add_name, fun front => .bare flag⟩
  · have hbare (flag : Flag) (h : argument = flag.name) : False := hbare ⟨flag, h⟩
    have hvalue (flag : Flag) (value : String) (h : argument = flag.argument value) : False :=
      hvalue ⟨flag, value, h⟩
    exact .inr ⟨_, fun s => add_unknown hbare hvalue, fun front => .unknown hbare hvalue⟩

theorem add_eq_ok {argument : String} :
    s.add argument = .ok t ↔ ∃ (flag : Flag) (value : String), value ≠ "" ∧
      argument = flag.argument value ∧ s.get? flag = none ∧ t = s.set flag value := by
  constructor
  · intro h
    rcases argument_cases argument with ⟨flag, value, hvalue, rfl⟩ | ⟨e, he, -⟩
    · rw [add_argument hvalue] at h
      split at h
      · nomatch h
      · rename_i hfree
        exact ⟨flag, value, hvalue, rfl, Option.not_isSome_iff_eq_none.mp hfree,
          (Except.ok.inj h).symm⟩
    · rw [he] at h
      nomatch h
  · rintro ⟨flag, value, hvalue, rfl, hfree, rfl⟩
    rw [add_argument hvalue, hfree]
    rfl

theorem get?_set (flag' : Flag) (value : String) :
    (s.set flag value).get? flag' = if flag' = flag then some value else s.get? flag' := by
  cases flag <;> cases flag' <;> rfl

theorem set_comm {flag' : Flag} (h : flag ≠ flag') (value value' : String) :
    (s.set flag value).set flag' value' = (s.set flag' value').set flag value := by
  cases flag <;> cases flag' <;> first | rfl | exact absurd rfl h

theorem add_commutes : Commutes add := by
  intro s a b t u ht hu
  obtain ⟨flag, value, hvalue, rfl, hfree, rfl⟩ := add_eq_ok.mp ht
  obtain ⟨flag', value', hvalue', rfl, hfree', rfl⟩ := add_eq_ok.mp hu
  rw [get?_set] at hfree'
  split at hfree'
  · nomatch hfree'
  · rename_i hne
    refine ⟨_, add_eq_ok.mpr ⟨flag', value', hvalue', rfl, hfree', rfl⟩, ?_⟩
    refine add_eq_ok.mpr ⟨flag, value, hvalue, rfl, ?_, set_comm (Ne.symm hne) value value'⟩
    rw [get?_set, if_neg (Ne.symm hne), hfree]

/-! Taking all of them. -/

/-- The settings that arguments taken so far have come to: these are their flags and values, in
some sequence. -/
structure Collected (front : List String) (s : Settings) : Prop where
  nonempty : ∀ flag value, s.get? flag = some value → value ≠ ""
  perm : front.Perm s.arguments

theorem mem_arguments {argument : String} :
    argument ∈ s.arguments ↔ ∃ (flag : Flag) (value : String),
      s.get? flag = some value ∧ argument = flag.argument value := by
  rw [arguments, List.mem_append, Option.mem_toList, Option.mem_toList, Option.map_eq_some_iff,
    Option.map_eq_some_iff]
  constructor
  · rintro (⟨value, hvalue, rfl⟩ | ⟨value, hvalue, rfl⟩)
    · exact ⟨.source, value, hvalue, rfl⟩
    · exact ⟨.input, value, hvalue, rfl⟩
  · rintro ⟨flag, value, hvalue, rfl⟩
    cases flag with
    | source => exact .inl ⟨value, hvalue, rfl⟩
    | input => exact .inr ⟨value, hvalue, rfl⟩

theorem arguments_set_perm (h : s.get? flag = none) (value : String) :
    (s.arguments ++ [flag.argument value]).Perm (s.set flag value).arguments := by
  obtain ⟨source, input⟩ := s
  cases flag with
  | source =>
    obtain rfl : source = none := h
    exact List.perm_append_comm
  | input =>
    obtain rfl : input = none := h
    simp [arguments, set]

theorem collected_nil : Collected [] {} where
  nonempty flag value h := by cases flag <;> nomatch h
  perm := .nil

theorem Collected.add {front : List String} {argument : String} (hs : Collected front s)
    (h : s.add argument = .ok t) : Collected (front ++ [argument]) t := by
  obtain ⟨flag, value, hvalue, rfl, hfree, rfl⟩ := add_eq_ok.mp h
  refine ⟨?_, (hs.perm.append_right _).trans (arguments_set_perm hfree value)⟩
  intro flag' value' h'
  rw [get?_set] at h'
  split at h'
  · exact Option.some.inj h' ▸ hvalue
  · exact hs.nonempty flag' value' h'

theorem Collected.isSome_get? {front : List String} (hs : Collected front s) (flag : Flag) :
    (s.get? flag).isSome ↔ ∃ value, flag.argument value ∈ front := by
  simp only [hs.perm.mem_iff, mem_arguments, argument_inj, Option.isSome_iff_exists]
  constructor
  · rintro ⟨value, hvalue⟩
    exact ⟨value, flag, value, hvalue, rfl, rfl⟩
  · rintro ⟨_, _, _, hvalue, rfl, rfl⟩
    exact ⟨_, hvalue⟩

theorem Collected.add_eq_error {front : List String} {argument : String} {e : Error}
    (hs : Collected front s) : s.add argument = .error e ↔ Wrong front argument e := by
  constructor
  · intro h
    rcases argument_cases argument with ⟨flag, value, hvalue, rfl⟩ | ⟨e', he', hwrong⟩
    · rw [add_argument hvalue] at h
      split at h
      · rename_i htaken
        obtain ⟨earlier, hearlier⟩ := (hs.isSome_get? flag).mp htaken
        exact Except.error.inj h ▸ .again hvalue hearlier
      · nomatch h
    · rw [he'] at h
      exact Except.error.inj h ▸ hwrong front
  · intro h
    cases h with
    | unknown hbare hvalue => exact add_unknown hbare hvalue
    | bare flag => exact add_name
    | valueless flag => exact add_valueless
    | again hvalue hearlier =>
      rw [add_argument hvalue, if_pos ((hs.isSome_get? _).mpr ⟨_, hearlier⟩)]

theorem foldlM_arguments (h : ∀ flag value, s.get? flag = some value → value ≠ "") :
    s.arguments.foldlM Settings.add {} = .ok s := by
  obtain ⟨source, input⟩ := s
  have hsource := h .source
  have hinput := h .input
  cases source <;> cases input <;>
    simp_all [arguments, get?, List.foldlM, add_argument, bind, Except.bind, pure, Except.pure, set]

theorem foldlM_concat (front : List String) (argument : String) :
    (front ++ [argument]).foldlM add {} = front.foldlM add {} >>= fun s => s.add argument := by
  rw [List.foldlM_append]
  simp

/-- Taking the arguments from left to right either collects all of them or stops at the leftmost
that something is wrong with. -/
theorem foldlM_add_cases (arguments : List String) :
    (∃ s, arguments.foldlM add {} = .ok s ∧ Collected arguments s ∧ Faultless arguments) ∨
      ∃ e, arguments.foldlM add {} = .error e ∧ FirstWrong arguments e := by
  induction arguments using List.reverseRecOn with
  | nil => exact .inl ⟨{}, rfl, collected_nil, faultless_nil⟩
  | append_singleton front argument ih =>
    rw [foldlM_concat]
    rcases ih with ⟨s, hs, hcollected, hfront⟩ | ⟨e, he, hwrong⟩
    · rw [hs]
      cases ht : s.add argument with
      | ok t =>
        refine .inl ⟨t, ht, hcollected.add ht, hfront.concat fun e hwrong => ?_⟩
        nomatch ht.symm.trans (hcollected.add_eq_error.mpr hwrong)
      | error e =>
        exact .inr ⟨e, ht, front, argument, [], rfl, hfront, hcollected.add_eq_error.mp ht⟩
    · rw [he]
      exact .inr ⟨e, rfl, hwrong.append [argument]⟩

theorem foldlM_eq_ok {arguments : List String} :
    arguments.foldlM add {} = .ok s ↔ Collected arguments s := by
  constructor
  · intro h
    rcases foldlM_add_cases arguments with ⟨t, ht, hcollected, -⟩ | ⟨e, he, -⟩
    · rwa [← Except.ok.inj (ht.symm.trans h)]
    · nomatch he.symm.trans h
  · intro h
    exact foldlM_perm add_commutes h.perm.symm (foldlM_arguments h.nonempty)

theorem foldlM_eq_error {arguments : List String} {e : Error} :
    arguments.foldlM add {} = .error e ↔ FirstWrong arguments e := by
  constructor
  · intro h
    rcases foldlM_add_cases arguments with ⟨s, hs, -⟩ | ⟨e', he', hwrong⟩
    · nomatch hs.symm.trans h
    · rwa [← Except.error.inj (he'.symm.trans h)]
  · rintro ⟨front, argument, back, rfl, hfront, hwrong⟩
    rcases foldlM_add_cases front with ⟨s, hs, hcollected, -⟩ | ⟨e', -, hwrong'⟩
    · rw [List.foldlM_append, hs]
      change (argument :: back).foldlM add s = _
      rw [List.foldlM_cons, hcollected.add_eq_error.mpr hwrong]
      rfl
    · exact absurd hwrong' (hfront.not_firstWrong e')

end Settings

/-! Command lines as a whole. -/

section

variable {arguments : List String}

theorem Wrong.about_argument {argument : String} {e : Error} (h : Wrong arguments argument e) :
    e ≠ .helpWithOthers ∧ e ≠ .nothingToRead := by
  cases h <;> exact ⟨nofun, nofun⟩

theorem FirstWrong.about_argument {e : Error} (h : FirstWrong arguments e) :
    e ≠ .helpWithOthers ∧ e ≠ .nothingToRead := by
  obtain ⟨front, argument, back, -, -, hwrong⟩ := h
  exact hwrong.about_argument

theorem parse_of_help (h : "--help" ∈ arguments) :
    parse arguments = if arguments.length = 1 then .ok .help else .error .helpWithOthers :=
  if_pos h

theorem parse_eq_help : parse arguments = .ok .help ↔ arguments = ["--help"] := by
  constructor
  · intro h
    by_cases hhelp : "--help" ∈ arguments
    · rw [parse_of_help hhelp] at h
      split at h
      · rename_i hlength
        obtain ⟨argument, rfl⟩ := List.length_eq_one_iff.mp hlength
        rw [List.mem_singleton.mp hhelp]
      · nomatch h
    · rw [parse, if_neg hhelp] at h
      obtain ⟨s, -, h⟩ := bind_eq_ok.mp h
      split at h <;> nomatch h
  · rintro rfl
    exact parse_of_help (List.mem_singleton_self _)

theorem parse_eq_run {settings : Settings} :
    parse arguments = .ok (.run settings) ↔
      settings ≠ {} ∧ Settings.Collected arguments settings := by
  constructor
  · intro h
    by_cases hhelp : "--help" ∈ arguments
    · rw [parse_of_help hhelp] at h
      split at h <;> nomatch h
    · rw [parse, if_neg hhelp] at h
      obtain ⟨s, hs, h⟩ := bind_eq_ok.mp h
      split at h
      · nomatch h
      · rename_i hne
        obtain rfl := Invocation.run.inj (Except.ok.inj h)
        exact ⟨hne, Settings.foldlM_eq_ok.mp hs⟩
  · rintro ⟨hne, hs⟩
    have hhelp : "--help" ∉ arguments := by
      rw [hs.perm.mem_iff, Settings.mem_arguments]
      rintro ⟨flag, value, -, h⟩
      exact argument_ne_help flag value h.symm
    rw [parse, if_neg hhelp]
    exact bind_eq_ok.mpr ⟨settings, Settings.foldlM_eq_ok.mpr hs, if_neg hne⟩

/-- Help is looked at before any argument, and an empty command line after all of them. -/
theorem parse_eq_error {e : Error} :
    parse arguments = .error e ↔
      ("--help" ∈ arguments ∧ 1 < arguments.length ∧ e = .helpWithOthers) ∨
      ("--help" ∉ arguments ∧ FirstWrong arguments e) ∨
      (arguments = [] ∧ e = .nothingToRead) := by
  by_cases hhelp : "--help" ∈ arguments
  · have hpos := List.length_pos_of_mem hhelp
    have hnil := List.ne_nil_of_mem hhelp
    rw [parse_of_help hhelp]
    split
    · rename_i hlength
      simp [hnil, hhelp, hlength]
    · have hlength : 1 < arguments.length := by omega
      simp [hnil, hhelp, hlength, eq_comm]
  · rw [parse, if_neg hhelp, bind_eq_error, Settings.foldlM_eq_error]
    simp only [hhelp, false_and, not_false_eq_true, true_and, false_or]
    refine or_congr_right ?_
    constructor
    · rintro ⟨s, hs, h⟩
      split at h
      · rename_i hempty
        subst hempty
        exact ⟨(Settings.foldlM_eq_ok.mp hs).perm.eq_nil, (Except.error.inj h).symm⟩
      · nomatch h
    · rintro ⟨rfl, rfl⟩
      exact ⟨{}, rfl, rfl⟩

end

/-- Which command lines ask for help, which for a run and with what settings, and what is
reported for each of the others. -/
theorem parse_accepts_exactly (arguments : List String) :
    (parse arguments = .ok .help ↔ arguments = ["--help"]) ∧
    (∀ settings : Settings, parse arguments = .ok (.run settings) ↔
      settings ≠ {} ∧ (∀ flag value, settings.get? flag = some value → value ≠ "") ∧
        arguments.Perm settings.arguments) ∧
    (parse arguments = .error .helpWithOthers ↔
      "--help" ∈ arguments ∧ 1 < arguments.length) ∧
    (parse arguments = .error .nothingToRead ↔ arguments = []) ∧
    ∀ e, parse arguments = .error e ∧ e ≠ .helpWithOthers ∧ e ≠ .nothingToRead ↔
      "--help" ∉ arguments ∧ FirstWrong arguments e := by
  have hothers : ¬ FirstWrong arguments .helpWithOthers := fun h => h.about_argument.1 rfl
  have hnothing : ¬ FirstWrong arguments .nothingToRead := fun h => h.about_argument.2 rfl
  refine ⟨parse_eq_help, fun settings => ?_, ?_, ?_, fun e => ?_⟩
  · rw [parse_eq_run]
    exact and_congr_right fun _ => ⟨fun h => ⟨h.nonempty, h.perm⟩, fun h => ⟨h.1, h.2⟩⟩
  · rw [parse_eq_error]
    simp [hothers]
  · rw [parse_eq_error]
    simp [hnothing]
  · rw [parse_eq_error]
    constructor
    · rintro ⟨⟨-, -, rfl⟩ | h | ⟨-, rfl⟩, hothers, hnothing⟩
      · exact absurd rfl hothers
      · exact h
      · exact absurd rfl hnothing
    · rintro ⟨hhelp, hwrong⟩
      exact ⟨.inr (.inl ⟨hhelp, hwrong⟩), hwrong.about_argument⟩

example : parse ["--input=a=b", "--source=--help"] =
    .ok (.run ⟨some "--help", some "a=b"⟩) := by
  decide +kernel

example : parse ["--source=p", "--sources=p", "--source=q", "--input"] =
    .error (.unknownArgument "--sources=p") := by
  decide +kernel

end ThreeAddress.CommandLine
