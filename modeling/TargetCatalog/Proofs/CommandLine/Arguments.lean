import Mathlib.Data.List.Infix
import Mathlib.Data.List.TakeWhile
import TargetCatalog.CommandLine.Options

/-!
# Values of options

What a list of arguments says, in the terms of its text: an option has a value there when one
argument is the option with the value behind an equals sign, or one is the option and the next the
value. A list that is accepted gives each option at most one value, wherever it stands, and the
options that are read are exactly these values.
-/

namespace TargetCatalog.CommandLine

namespace ValueOption

def name : ValueOption → String
  | mode => "mode"
  | compiler => "compiler"
  | archs => "archs"
  | machine => "machine"
  | definitions => "defs"
  | format => "format"

theorem ofName?_eq_some_iff (s : String) (option : ValueOption) :
    ofName? s = some option ↔ s = option.name := by
  constructor
  · intro h
    simp only [ofName?] at h
    split_ifs at h with hMode hCompiler hArchs hMachine hDefinitions hFormat
    all_goals cases h; assumption
  · rintro rfl
    cases option <;> decide

theorem name_inj {option other : ValueOption} (h : option.name = other.name) : option = other := by
  have hSame := (ofName?_eq_some_iff option.name other).mpr h
  exact Option.some.inj (((ofName?_eq_some_iff option.name option).mpr rfl).symm.trans hSame)

theorem eq_not_mem_name (option : ValueOption) : '=' ∉ option.name.toList := by
  cases option <;> decide

/-- What a value of the option stands for. -/
def Meaning : ValueOption → Type
  | mode => Mode
  | format => Format
  | compiler | archs | machine | definitions => String

def meaning? : (option : ValueOption) → String → Option option.Meaning
  | mode => Mode.ofString?
  | format => Format.ofString?
  | definitions => pathText?
  | compiler | archs | machine => some

end ValueOption

theorem once_eq_some_iff {α : Type} {old new result : Option α} :
    once old new = some result ↔ old = none ∧ ∃ value, new = some value ∧ result = some value := by
  cases old <;> cases new <;> simp [once, eq_comm]

theorem pathText?_eq_some_iff {s path : String} :
    pathText? s = some path ↔ s ≠ "" ∧ path = s := by
  rw [pathText?]
  split
  · simp_all
  · simp_all [eq_comm]

namespace Draft

def get (d : Draft) : (option : ValueOption) → Option option.Meaning
  | .mode => d.mode
  | .compiler => d.compiler
  | .archs => d.archs
  | .machine => d.machine
  | .definitions => d.definitions
  | .format => d.format

/-- An option is set to what its value stands for if it was not set before; nothing else
changes. -/
theorem get_of_set {d after : Draft} {option : ValueOption} {value : String}
    (h : d.set option value = some after) :
    d.get option = none ∧
      (∃ meaning, option.meaning? value = some meaning ∧ after.get option = some meaning) ∧
      ∀ other, other ≠ option → after.get other = d.get other := by
  cases option
  all_goals
    obtain ⟨set, hSet, rfl⟩ := Option.map_eq_some_iff.mp h
    obtain ⟨hFree, meaning, hMeaning, rfl⟩ := once_eq_some_iff.mp hSet
    refine ⟨hFree, ⟨meaning, hMeaning, rfl⟩, fun other hOther => ?_⟩
    cases other <;> first | rfl | exact absurd rfl hOther

theorem get_of_flag {d after : Draft} {option : FlagOption} (h : d.flag option = .accepted after)
    (other : ValueOption) : after.get other = d.get other := by
  cases option with
  | verbose =>
    simp only [flag] at h
    split at h
    · cases h
    · cases h
      cases other <;> rfl
  | version => cases h
  | help => cases h

theorem get_of_letters {d after : Draft} {letters : List Char}
    (h : d.letters letters = .accepted after) (other : ValueOption) :
    after.get other = d.get other := by
  induction letters generalizing d with
  | nil =>
    cases h
    rfl
  | cons c rest ih =>
    simp only [Draft.letters] at h
    split at h
    · cases h
    · split at h
      · rename_i hFlag
        rw [ih h, get_of_flag hFlag]
      · simp_all

end Draft

theorem nameAndValue_append {name : List Char} (h : '=' ∉ name) (value : List Char) :
    nameAndValue (name ++ '=' :: value) = (.ofList name, some (.ofList value)) := by
  have hName : ∀ c ∈ name, decide (c ≠ '=') = true := by
    intro c hc
    exact decide_eq_true (ne_of_mem_of_not_mem hc h)
  rw [nameAndValue, List.takeWhile_append_of_pos hName, List.dropWhile_append_of_pos hName]
  simp

theorem nameAndValue_of_no_sign {name : List Char} (h : '=' ∉ name) :
    nameAndValue name = (.ofList name, none) := by
  have hName : ∀ c ∈ name, decide (c ≠ '=') = true := by
    intro c hc
    exact decide_eq_true (ne_of_mem_of_not_mem hc h)
  rw [nameAndValue, List.takeWhile_eq_self_iff.mpr hName]
  simp [h]

/-- The text behind the hyphens has an equals sign, which ends the name, or is a name. -/
theorem nameAndValue_cases (cs : List Char) :
    (∃ name value, cs = name ++ '=' :: value ∧
      nameAndValue cs = (.ofList name, some (.ofList value))) ∨
    nameAndValue cs = (.ofList cs, none) := by
  by_cases hSign : '=' ∈ cs
  · obtain ⟨name, value, rfl, hName⟩ := List.eq_append_cons_of_mem hSign
    exact .inl ⟨name, value, rfl, nameAndValue_append hName value⟩
  · exact .inr (nameAndValue_of_no_sign hSign)

namespace Argument

theorem ofString_of_hyphens {s : String} {cs : List Char} (hNe : cs ≠ [])
    (h : s.toList = '-' :: '-' :: cs) :
    ofString s = .long (nameAndValue cs).1 (nameAndValue cs).2 := by
  obtain ⟨c, rest, rfl⟩ := List.exists_cons_of_ne_nil hNe
  simp only [ofString, h]

theorem ofString_joined (option : ValueOption) (value : String) :
    ofString ("--" ++ option.name ++ "=" ++ value) = .long option.name (some value) := by
  have hChars : ("--" ++ option.name ++ "=" ++ value).toList =
      '-' :: '-' :: (option.name.toList ++ '=' :: value.toList) := by
    simp [String.toList_append]
  rw [ofString_of_hyphens (by simp) hChars, nameAndValue_append option.eq_not_mem_name]
  simp

theorem ofString_apart (option : ValueOption) :
    ofString ("--" ++ option.name) = .long option.name none := by
  have hChars : ("--" ++ option.name).toList = '-' :: '-' :: option.name.toList := by
    simp [String.toList_append]
  have hNe : option.name.toList ≠ [] := by
    cases option <;> decide
  rw [ofString_of_hyphens hNe hChars, nameAndValue_of_no_sign option.eq_not_mem_name]
  simp

theorem toList_of_long {s name : String} {value : Option String}
    (h : ofString s = .long name value) :
    ∃ cs, s.toList = '-' :: '-' :: cs ∧ nameAndValue cs = (name, value) := by
  simp only [ofString] at h
  split at h
  · cases h
  · rename_i rest _ hChars
    cases h
    exact ⟨rest, hChars, rfl⟩
  · cases h
  · cases h

theorem eq_of_long_some {s name value : String} (h : ofString s = .long name (some value)) :
    s = "--" ++ name ++ "=" ++ value := by
  obtain ⟨cs, hChars, hParts⟩ := toList_of_long h
  obtain ⟨front, back, rfl, hSplit⟩ | hSplit := nameAndValue_cases cs
  · cases hSplit.symm.trans hParts
    apply String.toList_inj.mp
    simp [hChars, String.toList_append]
  · cases hSplit.symm.trans hParts

theorem eq_of_long_none {s name : String} (h : ofString s = .long name none) :
    s = "--" ++ name := by
  obtain ⟨cs, hChars, hParts⟩ := toList_of_long h
  obtain ⟨front, back, rfl, hSplit⟩ | hSplit := nameAndValue_cases cs
  · cases hSplit.symm.trans hParts
  · cases hSplit.symm.trans hParts
    apply String.toList_inj.mp
    simp [hChars, String.toList_append]

theorem ofString_of_not_looksLikeOption {s : String} (h : looksLikeOption s = false) :
    ofString s = .plain := by
  simp only [looksLikeOption] at h
  simp only [ofString]
  split at h
  · cases h
  · rename_i hNot
    split
    · rename_i hChars
      exact absurd hChars (hNot _ _)
    · rename_i hChars
      exact absurd hChars (hNot _ _)
    · rename_i hChars
      exact absurd hChars (hNot _ _)
    · rfl

end Argument

/-- The option has the value, in the same argument or in the one behind it. -/
def Gives (args : List String) (option : ValueOption) (value : String) : Prop :=
  "--" ++ option.name ++ "=" ++ value ∈ args ∨ ["--" ++ option.name, value] <:+: args

section Gives

variable {arg value : String} {rest : List String} {option other : ValueOption}

theorem not_gives_nil (option : ValueOption) (value : String) : ¬ Gives [] option value := by
  simp [Gives]

theorem gives_cons_iff : Gives (arg :: rest) option value ↔
    (arg = "--" ++ option.name ++ "=" ++ value ∨
      arg = "--" ++ option.name ∧ [value] <+: rest) ∨ Gives rest option value := by
  rw [Gives, Gives, List.mem_cons, List.infix_cons_iff, List.cons_prefix_cons]
  constructor
  · rintro ((h | h) | (⟨h, hNext⟩ | h))
    · exact .inl (.inl h.symm)
    · exact .inr (.inl h)
    · exact .inl (.inr ⟨h.symm, hNext⟩)
    · exact .inr (.inr h)
  · rintro ((h | ⟨h, hNext⟩) | (h | h))
    · exact .inl (.inl h.symm)
    · exact .inr (.inl ⟨h.symm, hNext⟩)
    · exact .inl (.inr h)
    · exact .inr (.inr h)

/-- An argument that is read as something else gives no option a value. -/
theorem gives_cons_of_ne (h : ∀ value, Argument.ofString arg ≠ .long option.name value) :
    Gives (arg :: rest) option value ↔ Gives rest option value := by
  rw [gives_cons_iff]
  refine or_iff_right ?_
  rintro (rfl | ⟨rfl, -⟩)
  · exact h _ (Argument.ofString_joined option value)
  · exact h _ (Argument.ofString_apart option)

theorem gives_cons_joined {given : String}
    (h : Argument.ofString arg = .long other.name (some given)) :
    Gives (arg :: rest) option value ↔
      option = other ∧ value = given ∨ Gives rest option value := by
  rw [gives_cons_iff]
  refine or_congr_left ?_
  constructor
  · rintro (rfl | ⟨rfl, -⟩)
    · rw [Argument.ofString_joined, Argument.long.injEq] at h
      obtain ⟨hName, hValue⟩ := h
      exact ⟨ValueOption.name_inj hName, Option.some.inj hValue⟩
    · rw [Argument.ofString_apart, Argument.long.injEq] at h
      cases h.2
  · rintro ⟨rfl, rfl⟩
    exact .inl (Argument.eq_of_long_some h)

theorem gives_cons_apart {given : String} {tail : List String}
    (h : Argument.ofString arg = .long other.name none) (hGiven : looksLikeOption given = false) :
    Gives (arg :: given :: tail) option value ↔
      option = other ∧ value = given ∨ Gives tail option value := by
  have hPlain : ∀ value, Argument.ofString given ≠ .long option.name value := by
    simp [Argument.ofString_of_not_looksLikeOption hGiven]
  rw [gives_cons_iff, gives_cons_of_ne hPlain]
  refine or_congr_left ?_
  constructor
  · rintro (rfl | ⟨rfl, hNext⟩)
    · rw [Argument.ofString_joined, Argument.long.injEq] at h
      cases h.2
    · rw [Argument.ofString_apart, Argument.long.injEq] at h
      obtain ⟨hName, -⟩ := h
      obtain ⟨hValue, -⟩ := List.cons_prefix_cons.mp hNext
      exact ⟨ValueOption.name_inj hName, hValue⟩
  · rintro ⟨rfl, rfl⟩
    refine .inr ⟨Argument.eq_of_long_none h, ?_⟩
    simp

end Gives

namespace Draft

/-- The next argument, and the one behind it if that is its value, sets one option, or none. -/
theorem read_cons_cases {d after : Draft} {arg : String} {rest : List String}
    (h : d.read (arg :: rest) = .accepted after) :
    ∃ middle tail, middle.read tail = .accepted after ∧ tail.length < (arg :: rest).length ∧
      (((∀ option, middle.get option = d.get option) ∧
        ∀ option value, Gives (arg :: rest) option value ↔ Gives tail option value) ∨
      ∃ set given, d.set set given = some middle ∧
        ∀ option value, Gives (arg :: rest) option value ↔
          option = set ∧ value = given ∨ Gives tail option value) := by
  rw [Draft.read] at h
  split at h
  · rename_i hArg
    split at h
    · rename_i hLast
      subst rest
      refine ⟨d, [], h, by simp, .inl ⟨fun _ => rfl, fun option value => gives_cons_of_ne ?_⟩⟩
      simp [hArg]
    · cases h
  · cases h
  · rename_i letters hArg
    split at h
    · rename_i middle hLetters
      refine ⟨middle, rest, h, by simp, .inl ⟨get_of_letters hLetters, fun option value =>
        gives_cons_of_ne ?_⟩⟩
      simp [hArg]
    · simp_all
  · rename_i name value hArg
    split at h
    · rename_i set given hName
      obtain rfl := (ValueOption.ofName?_eq_some_iff _ _).mp hName
      split at h
      · rename_i middle hSet
        exact ⟨middle, rest, h, by simp, .inr ⟨set, given, hSet, fun _ _ => gives_cons_joined hArg⟩⟩
      · cases h
    · rename_i set hName
      obtain rfl := (ValueOption.ofName?_eq_some_iff _ _).mp hName
      split at h
      · cases h
      · rename_i given tail
        split at h
        · cases h
        · rename_i hGiven
          rw [Bool.not_eq_true] at hGiven
          split at h
          · rename_i middle hSet
            have hLess : tail.length < (arg :: given :: tail).length := by
              simp only [List.length_cons]
              omega
            exact ⟨middle, tail, h, hLess, .inr ⟨set, given, hSet, fun _ _ =>
              gives_cons_apart hArg hGiven⟩⟩
          · cases h
    · rename_i flag hNone hFlag
      split at h
      · rename_i middle hSet
        refine ⟨middle, rest, h, by simp, .inl ⟨get_of_flag hSet, fun option value =>
          gives_cons_of_ne fun other hLong => ?_⟩⟩
        rw [hArg, Argument.long.injEq] at hLong
        rw [(ValueOption.ofName?_eq_some_iff name option).mpr hLong.1] at hNone
        cases hNone
      · simp_all
    · cases h
    · cases h

/-- An option that has a value among the arguments is set to it and was free before; the others
stay as they are. The induction is on the arguments that are left. -/
theorem get_of_read {d after : Draft} {args : List String} (h : d.read args = .accepted after)
    (option : ValueOption) :
    (∀ value, Gives args option value → d.get option = none ∧
      ∃ meaning, option.meaning? value = some meaning ∧ after.get option = some meaning) ∧
    ((∀ value, ¬ Gives args option value) → after.get option = d.get option) := by
  induction args using (measure List.length).wf.induction generalizing d with
  | h args ih =>
    cases args with
    | nil =>
      cases h
      exact ⟨fun value hGives => absurd hGives (not_gives_nil option value), fun _ => rfl⟩
    | cons arg rest =>
      obtain ⟨middle, tail, hRest, hLess, hStep⟩ := read_cons_cases h
      obtain ⟨hGiven, hNone⟩ := ih tail hLess hRest
      obtain ⟨hSame, hGives⟩ | ⟨set, given, hSet, hGives⟩ := hStep
      · simp only [hGives, ← hSame option]
        exact ⟨hGiven, hNone⟩
      · obtain ⟨hFree, ⟨meaning, hMeaning, hNow⟩, hOthers⟩ := get_of_set hSet
        simp only [hGives]
        constructor
        · rintro value (⟨rfl, rfl⟩ | hLater)
          -- A second value further on would need the option to be free again.
          · have hLast : ∀ value, ¬ Gives tail option value := by
              intro value hAgain
              have hTwice := (hGiven value hAgain).1
              rw [hNow] at hTwice
              cases hTwice
            exact ⟨hFree, meaning, hMeaning, (hNone hLast).trans hNow⟩
          · obtain ⟨hBefore, hAfter⟩ := hGiven value hLater
            have hOther : option ≠ set := by
              rintro rfl
              rw [hNow] at hBefore
              cases hBefore
            exact ⟨(hOthers option hOther).symm.trans hBefore, hAfter⟩
        · intro hNever
          have hOther : option ≠ set := by
            rintro rfl
            exact hNever given (.inl ⟨rfl, rfl⟩)
          rw [hNone fun value hLater => hNever value (.inr hLater), hOthers option hOther]

/-- Without anything set before, an option is set exactly to what is given. -/
theorem get_eq_some_iff {d : Draft} {args : List String} (h : read {} args = .accepted d)
    (option : ValueOption) (meaning : option.Meaning) :
    d.get option = some meaning ↔
      ∃ value, Gives args option value ∧ option.meaning? value = some meaning := by
  obtain ⟨hGiven, hNone⟩ := get_of_read h option
  constructor
  · intro hSet
    by_contra hNever
    -- A value that stands for something else would have been set instead.
    have hUnset : d.get option = none := by
      refine (hNone fun value hGives => ?_).trans (by cases option <;> rfl)
      obtain ⟨-, other, hMeaning, hOther⟩ := hGiven value hGives
      cases hSet.symm.trans hOther
      exact hNever ⟨value, hGives, hMeaning⟩
    cases hSet.symm.trans hUnset
  · rintro ⟨value, hGives, hMeaning⟩
    obtain ⟨-, other, hOther, hSet⟩ := hGiven value hGives
    cases hMeaning.symm.trans hOther
    exact hSet

theorem complete_eq_some {d : Draft} {fallback : Option String} {o : Options}
    (h : d.complete fallback = some o) :
    d.mode = some o.mode ∧ o.compiler = d.compiler ∧ o.archs = d.archs ∧ o.machine = d.machine ∧
      o.definitions = d.definitions.or fallback ∧ o.format = d.format.getD .text := by
  obtain ⟨mode, hMode, h⟩ := Option.bind_eq_some_iff.mp h
  cases hPath : d.definitions with
  | some path =>
    rw [hPath] at h
    cases h
    exact ⟨hMode, rfl, rfl, rfl, rfl, rfl⟩
  | none =>
    rw [hPath] at h
    cases fallback with
    | none =>
      cases h
      exact ⟨hMode, rfl, rfl, rfl, rfl, rfl⟩
    | some path =>
      obtain ⟨definitions, hDefinitions, h⟩ := Option.bind_eq_some_iff.mp h
      obtain ⟨text, hText, rfl⟩ := Option.map_eq_some_iff.mp hDefinitions
      cases h
      obtain ⟨-, rfl⟩ := pathText?_eq_some_iff.mp hText
      exact ⟨hMode, rfl, rfl, rfl, rfl, rfl⟩

end Draft

/-- The options say what the arguments give. A definitions file that no argument names is the one
that the environment names. -/
structure Options.GivenBy (o : Options) (args : List String) (fallback : Option String) : Prop where
  mode : ∃ word, Gives args .mode word ∧ Mode.ofString? word = some o.mode
  compiler : ∀ id, o.compiler = some id ↔ Gives args .compiler id
  archs : ∀ list, o.archs = some list ↔ Gives args .archs list
  machine : ∀ name, o.machine = some name ↔ Gives args .machine name
  named : ∀ path, Gives args .definitions path → o.definitions = some path
  unnamed : (∀ path, ¬ Gives args .definitions path) → o.definitions = fallback
  format : ∀ word, Gives args .format word → Format.ofString? word = some o.format
  unformatted : (∀ word, ¬ Gives args .format word) → o.format = .text

theorem exists_draft_of_readArguments {args : List String} {fallback : Option String} {o : Options}
    (h : readArguments args fallback = .accepted o) :
    ∃ d, Draft.read {} args = .accepted d ∧ d.complete fallback = some o := by
  simp only [readArguments] at h
  split at h
  · rename_i d hRead
    split at h
    · rename_i hComplete
      cases h
      exact ⟨d, hRead, hComplete⟩
    · cases h
  all_goals cases h

theorem givenBy_of_readArguments {args : List String} {fallback : Option String} {o : Options}
    (h : readArguments args fallback = .accepted o) : o.GivenBy args fallback := by
  obtain ⟨d, hRead, hComplete⟩ := exists_draft_of_readArguments h
  obtain ⟨hMode, hCompiler, hArchs, hMachine, hDefinitions, hFormat⟩ :=
    Draft.complete_eq_some hComplete
  have hText : ∀ option id, (∃ value, Gives args option value ∧ some value = some id) ↔
      Gives args option id := by simp
  constructor
  · exact (Draft.get_eq_some_iff hRead .mode o.mode).mp hMode
  · rw [hCompiler]
    exact fun id => (Draft.get_eq_some_iff hRead .compiler id).trans (hText .compiler id)
  · rw [hArchs]
    exact fun list => (Draft.get_eq_some_iff hRead .archs list).trans (hText .archs list)
  · rw [hMachine]
    exact fun name => (Draft.get_eq_some_iff hRead .machine name).trans (hText .machine name)
  · intro path hGives
    obtain ⟨-, text, hPath, hSet⟩ := (Draft.get_of_read hRead .definitions).1 path hGives
    obtain ⟨-, rfl⟩ := pathText?_eq_some_iff.mp hPath
    have hNamed : d.definitions = some text := hSet
    rw [hDefinitions, hNamed]
    rfl
  · intro hNever
    have hUnset : d.definitions = none := (Draft.get_of_read hRead .definitions).2 hNever
    rw [hDefinitions, hUnset, Option.none_or]
  · intro word hGives
    obtain ⟨-, format, hWord, hSet⟩ := (Draft.get_of_read hRead .format).1 word hGives
    have hFormatted : d.format = some format := hSet
    rw [hFormat, hFormatted]
    exact hWord
  · intro hNever
    have hUnset : d.format = none := (Draft.get_of_read hRead .format).2 hNever
    rw [hFormat, hUnset]
    rfl

end TargetCatalog.CommandLine
