/-
# File names and runs correspond

A file name is a list of tokens joined by dots, and so are the method and the workload of a run. The
reader of names searches for the first mode word that can be an anchor, so a run is found again in
its name exactly if no token before the mode is a mode word. `WellFormed` says this of a run without
mentioning the reader. The main statement is that the accepted names are the names of well-formed
runs: reading and naming are inverse to each other, two names of one run are equal, and the run base
of an accepted name is its mode, a dot and a workload that is not empty.
-/

import SpeedupStudy.Proofs.Text.Pieces
import SpeedupStudy.Run.Name

namespace SpeedupStudy.Run

/-- A token of a file name: not empty, and without a dot. -/
def IsToken (token : List Char) : Prop :=
  token ≠ [] ∧ '.' ∉ token

/-- A token that is no mode word. -/
def IsPlainToken (token : List Char) : Prop :=
  IsToken token ∧ ∀ mode : Mode, token ≠ mode.name.toList

/-- One or more tokens of a kind, joined by dots. -/
def IsDotted (kind : List Char → Prop) (s : String) : Prop :=
  ∃ tokens : List (List Char), tokens ≠ [] ∧ (∀ token ∈ tokens, kind token) ∧ s = dotted tokens

/-- The fields of a run that has a file name. A run without a scenario has the fields of a baseline,
as its name leaves them out. -/
structure WellFormed (run : Run) : Prop where
  runBase : ∃ workload, IsDotted IsToken workload ∧ run.runBase = run.mode.name ++ "." ++ workload
  typed : run.scenario.isSome → IsDotted IsPlainToken run.method ∧ IsPlainToken run.config.toList
  untyped : run.scenario = none → run.method = baselineMethod ∧ run.config = baselineConfig

theorem modeOfToken?_eq_some_iff {token : List Char} {mode : Mode} :
    modeOfToken? token = some mode ↔ token = mode.name.toList := by
  constructor
  · intro found
    have named := Mode.eq_name_of_ofName? found
    rw [← named, String.toList_ofList]
  · rintro rfl
    rw [modeOfToken?, String.ofList_toList, Mode.ofName?_name]

theorem modeOfToken?_eq_none_iff {token : List Char} :
    modeOfToken? token = none ↔ ∀ mode : Mode, token ≠ mode.name.toList := by
  simp [Option.eq_none_iff_forall_ne_some, modeOfToken?_eq_some_iff]

theorem isToken_modeName (mode : Mode) : IsToken mode.name.toList := by
  cases mode <;> exact ⟨by decide, by decide⟩

theorem isToken_scenarioName (t : Scenario) : IsToken t.name.toList := by
  cases t <;> exact ⟨by decide, by decide⟩

/-- The cut is at the first mode word with a token after it. -/
theorem cutAtMode?_eq_some_iff {tokens before base : List (List Char)} {mode : Mode} :
    cutAtMode? tokens = some (before, mode, base) ↔
      (∀ token ∈ before, ∀ mode : Mode, token ≠ mode.name.toList) ∧
        ∃ workload, workload ≠ [] ∧ base = mode.name.toList :: workload ∧
          tokens = before ++ base := by
  induction tokens generalizing before with
  | nil =>
      simp only [cutAtMode?, reduceCtorEq, false_iff, not_and, not_exists]
      rintro - workload - rfl shape
      simp at shape
  | cons token rest ih =>
      cases rest with
      | nil =>
          simp only [cutAtMode?, reduceCtorEq, false_iff, not_and, not_exists]
          rintro - workload nonempty rfl shape
          have length := congrArg List.length shape
          simp only [List.length_cons, List.length_nil, List.length_append] at length
          exact nonempty (List.length_eq_zero_iff.mp (by omega))
      | cons next rest =>
          cases anchor : modeOfToken? token with
          | some found =>
              have named := modeOfToken?_eq_some_iff.mp anchor
              simp only [cutAtMode?, anchor, Option.some.injEq, Prod.mk.injEq]
              constructor
              · rintro ⟨rfl, rfl, rfl⟩
                exact ⟨by simp, next :: rest, by simp, by rw [named], rfl⟩
              · rintro ⟨plain, workload, nonempty, rfl, shape⟩
                cases before with
                | nil =>
                    obtain ⟨head, tail⟩ := List.cons.inj shape
                    have same : found = mode := by
                      rw [head] at anchor
                      exact Option.some.inj
                        (anchor.symm.trans (modeOfToken?_eq_some_iff.mpr rfl))
                    exact ⟨rfl, same, by rw [head, tail]⟩
                | cons first before =>
                    obtain ⟨rfl, -⟩ := List.cons.inj shape
                    exact absurd named (plain token List.mem_cons_self found)
          | none =>
              have plainToken := modeOfToken?_eq_none_iff.mp anchor
              simp only [cutAtMode?, anchor, Option.map_eq_some_iff]
              constructor
              · rintro ⟨⟨before', mode', base'⟩, cut, same⟩
                simp only [Prod.mk.injEq] at same
                obtain ⟨rfl, rfl, rfl⟩ := same
                obtain ⟨plain, workload, nonempty, rfl, shape⟩ := ih.mp cut
                refine ⟨?_, workload, nonempty, rfl, by rw [shape, List.cons_append]⟩
                intro other mem
                rcases List.mem_cons.mp mem with rfl | mem
                · exact plainToken
                · exact plain other mem
              · rintro ⟨plain, workload, nonempty, rfl, shape⟩
                cases before with
                | nil =>
                    obtain ⟨head, -⟩ := List.cons.inj shape
                    exact absurd head (plainToken mode)
                | cons first before =>
                    obtain ⟨rfl, tail⟩ := List.cons.inj shape
                    refine ⟨(before, mode, mode.name.toList :: workload), ih.mpr ?_, rfl⟩
                    exact ⟨fun other mem => plain other (List.mem_cons_of_mem _ mem), workload,
                      nonempty, rfl, tail⟩

/-- What a list of tokens must look like to name a run: the tokens of a baseline in the short form,
or a scenario, a method, a configuration and a run base. -/
theorem ofTokens_eq_ok_iff {tokens : List (List Char)} {run : Run} :
    ofTokens tokens = .ok run ↔
      ∃ mode workload, workload ≠ [] ∧
        ((tokens = baselineMethod.toList :: mode.name.toList :: workload ∧
            run = ⟨none, baselineMethod, baselineConfig, mode,
              dotted (mode.name.toList :: workload)⟩) ∨
          ∃ (t : Scenario) (method : List (List Char)) (config : List Char), method ≠ [] ∧
            (∀ token ∈ method ++ [config], ∀ mode : Mode, token ≠ mode.name.toList) ∧
            tokens = t.name.toList :: (method ++ [config] ++ mode.name.toList :: workload) ∧
            run = ⟨some t, dotted method, String.ofList config, mode,
              dotted (mode.name.toList :: workload)⟩) := by
  constructor
  · intro named
    cases tokens with
    | nil => cases named
    | cons first rest =>
        simp only [ofTokens] at named
        split at named
        · cases named
        · next mode base cut =>
            obtain ⟨-, workload, nonempty, rfl, shape⟩ := cutAtMode?_eq_some_iff.mp cut
            split at named
            · next baseline =>
                cases named
                refine ⟨mode, workload, nonempty, .inl ⟨?_, rfl⟩⟩
                rw [← baseline, String.toList_ofList, shape, List.nil_append]
            · cases named
        · cases named
        · next before mode base notEmpty notSingle cut =>
            obtain ⟨plain, workload, nonempty, rfl, shape⟩ := cutAtMode?_eq_some_iff.mp cut
            split at named
            · cases named
            · next t scenario =>
                cases named
                obtain ⟨method, config, rfl⟩ : ∃ method config, before = method ++ [config] :=
                  ⟨_, _, (List.dropLast_concat_getLast fun empty => notEmpty empty).symm⟩
                have many : method ≠ [] := by
                  rintro rfl
                  exact notSingle config rfl
                refine ⟨mode, workload, nonempty, .inr ⟨t, method, config, many, plain, ?_, ?_⟩⟩
                · rw [shape, ← Scenario.eq_name_of_ofName? scenario, String.toList_ofList]
                · simp [dotted]
  · rintro ⟨mode, workload, nonempty,
      ⟨rfl, rfl⟩ | ⟨t, method, config, some, plain, rfl, rfl⟩⟩
    · have cut : cutAtMode? (mode.name.toList :: workload) =
          Option.some ([], mode, mode.name.toList :: workload) :=
        cutAtMode?_eq_some_iff.mpr ⟨by simp, workload, nonempty, rfl, rfl⟩
      simp [ofTokens, cut]
    · have cut : cutAtMode? (method ++ [config] ++ mode.name.toList :: workload) =
          Option.some (method ++ [config], mode, mode.name.toList :: workload) :=
        cutAtMode?_eq_some_iff.mpr ⟨plain, workload, nonempty, rfl, rfl⟩
      have last : (method ++ [config]).drop ((method ++ [config]).length - 1) = [config] := by
        simp
      obtain ⟨first, second, rest, long⟩ :
          ∃ first second rest, method ++ [config] = first :: second :: rest := by
        cases method with
        | nil => exact absurd rfl some
        | cons first rest => cases rest <;> simp
      have front : (first :: second :: rest).dropLast = method := by
        rw [← long, List.dropLast_concat]
      rw [long] at cut last
      simp only [ofTokens, long, cut, String.ofList_toList, Scenario.ofName?_name, last, front]
      simp [dotted]

/-- A name with a stem is its stem, a dot and the log extension. -/
theorem stem?_eq_some_iff {name stem : List Char} :
    stem? name = some stem ↔ name = stem ++ '.' :: logExtension.toList := by
  simp only [stem?, Option.ite_none_right_eq_some, Option.some.injEq, List.isSuffixOf_iff_suffix]
  constructor
  · rintro ⟨⟨front, rfl⟩, cut⟩
    rw [← cut]
    simp
  · rintro rfl
    exact ⟨⟨stem, rfl⟩, by simp⟩

/-- An accepted name is a list of tokens that names the run, joined by dots and followed by the log
extension. -/
theorem ofFileName_eq_ok_iff_tokens {name : String} {run : Run} :
    ofFileName name = .ok run ↔
      ∃ tokens, tokens ≠ [] ∧ (∀ token ∈ tokens, IsToken token) ∧
        name = dotted tokens ++ ("." ++ logExtension) ∧ ofTokens tokens = .ok run := by
  have ending : ∀ stem : List Char,
      name.toList = stem ++ '.' :: logExtension.toList ↔
        name = String.ofList stem ++ ("." ++ logExtension) := by
    intro stem
    rw [← String.toList_inj]
    simp
  constructor
  · intro named
    unfold ofFileName at named
    split at named
    · cases named
    · next stem found =>
        have cut : name = String.ofList stem ++ ("." ++ logExtension) :=
          (ending stem).mp (stem?_eq_some_iff.mp found)
        simp only at named
        split at named
        · cases named
        · next full =>
            refine ⟨Text.split '.' stem, Text.splitWhen_ne_nil _ _, ?_, ?_, named⟩
            · intro token mem
              refine ⟨?_, Text.not_mem_of_mem_split mem⟩
              rintro rfl
              exact full (List.any_eq_true.mpr ⟨[], mem, rfl⟩)
            · rw [dotted, Text.join_split, cut]
  · rintro ⟨tokens, nonempty, all, cut, named⟩
    have found : stem? name.toList = some (Text.join '.' tokens) :=
      stem?_eq_some_iff.mpr ((ending _).mpr cut)
    have pieces : Text.split '.' (Text.join '.' tokens) = tokens :=
      Text.split_join (fun token mem => (all token mem).2) nonempty
    have full : tokens.any List.isEmpty = false := by
      rw [List.any_eq_false]
      intro token mem
      simpa using (all token mem).1
    simp only [ofFileName, found, pieces, full, Bool.false_eq_true, if_false, named]

theorem dotted_singleton (token : List Char) : dotted [token] = String.ofList token := by
  rw [dotted, Text.join_singleton]

theorem dotted_append {first second : List (List Char)} (nonempty : first ≠ [])
    (nonempty' : second ≠ []) :
    dotted (first ++ second) = dotted first ++ "." ++ dotted second := by
  rw [dotted, Text.join_append nonempty nonempty', ← String.toList_inj]
  simp [dotted]

theorem dotted_cons {token : List Char} {tokens : List (List Char)} (nonempty : tokens ≠ []) :
    dotted (token :: tokens) = String.ofList token ++ "." ++ dotted tokens := by
  rw [← dotted_singleton, ← dotted_append (List.cons_ne_nil token []) nonempty,
    List.singleton_append]

/-- The name of a run without a scenario that a list of tokens names. -/
theorem fileName_untyped (mode : Mode) (workload : List (List Char)) :
    fileName ⟨none, baselineMethod, baselineConfig, mode, dotted (mode.name.toList :: workload)⟩ =
      dotted (baselineMethod.toList :: mode.name.toList :: workload) ++ ("." ++ logExtension) := by
  rw [dotted_cons (List.cons_ne_nil _ _), String.ofList_toList]
  rfl

/-- The name of a run with a scenario that a list of tokens names. -/
theorem fileName_typed (t : Scenario) {method : List (List Char)} (config : List Char) (mode : Mode)
    {workload : List (List Char)} (some : method ≠ []) :
    fileName ⟨Option.some t, dotted method, String.ofList config, mode,
        dotted (mode.name.toList :: workload)⟩ =
      dotted (t.name.toList :: (method ++ [config] ++ mode.name.toList :: workload)) ++
        ("." ++ logExtension) := by
  have tokens : dotted (t.name.toList :: (method ++ [config] ++ mode.name.toList :: workload)) =
      t.name ++ "." ++ (dotted method ++ "." ++ String.ofList config ++ "." ++
        dotted (mode.name.toList :: workload)) := by
    rw [dotted_cons (by simp), dotted_append (by simp) (by simp),
      dotted_append some (by simp), dotted_singleton, String.ofList_toList]
  rw [tokens]
  rfl

/-- A run that a list of tokens names is well formed and named after these tokens. -/
theorem wellFormed_of_ofTokens {tokens : List (List Char)} {run : Run}
    (all : ∀ token ∈ tokens, IsToken token) (named : ofTokens tokens = .ok run) :
    run.WellFormed ∧ run.fileName = dotted tokens ++ ("." ++ logExtension) := by
  obtain ⟨mode, workload, nonempty,
    ⟨rfl, rfl⟩ | ⟨t, method, config, some, plain, rfl, rfl⟩⟩ := ofTokens_eq_ok_iff.mp named
  · refine ⟨⟨⟨dotted workload, ⟨workload, nonempty, ?_, rfl⟩, ?_⟩, ?_, ?_⟩,
      fileName_untyped mode workload⟩
    · exact fun token mem => all token (by simp [mem])
    · rw [dotted_cons nonempty, String.ofList_toList]
    · simp
    · exact fun _ => ⟨rfl, rfl⟩
  · refine ⟨⟨⟨dotted workload, ⟨workload, nonempty, ?_, rfl⟩, ?_⟩, ?_, ?_⟩,
      fileName_typed t config mode some⟩
    · exact fun token mem => all token (by simp [mem])
    · rw [dotted_cons nonempty, String.ofList_toList]
    · refine fun _ => ⟨⟨method, some, fun token mem => ⟨all token (by simp [mem]), ?_⟩, rfl⟩, ?_⟩
      · exact plain token (by simp [mem])
      · rw [String.toList_ofList]
        exact ⟨all config (by simp), plain config (by simp)⟩
    · simp

/-- A well-formed run is named by the tokens of its name. -/
theorem ofTokens_of_wellFormed {run : Run} (good : run.WellFormed) :
    ∃ tokens, tokens ≠ [] ∧ (∀ token ∈ tokens, IsToken token) ∧
      run.fileName = dotted tokens ++ ("." ++ logExtension) ∧ ofTokens tokens = .ok run := by
  obtain ⟨⟨_, ⟨workload, nonempty, workloadTokens, rfl⟩, base⟩, typed, untyped⟩ := good
  obtain ⟨scenario, method, config, mode, runBase⟩ := run
  have base' : runBase = dotted (mode.name.toList :: workload) := by
    rw [dotted_cons nonempty, String.ofList_toList]
    exact base
  subst base'
  cases scenario with
  | none =>
      obtain ⟨rfl, rfl⟩ := untyped rfl
      refine ⟨_, by simp, ?_, fileName_untyped mode workload,
        ofTokens_eq_ok_iff.mpr ⟨mode, workload, nonempty, .inl ⟨rfl, rfl⟩⟩⟩
      intro token mem
      rcases List.mem_cons.mp mem with rfl | mem
      · exact ⟨by decide, by decide⟩
      · rcases List.mem_cons.mp mem with rfl | mem
        · exact isToken_modeName mode
        · exact workloadTokens token mem
  | some t =>
      obtain ⟨⟨method, some, methodTokens, rfl⟩, configToken⟩ := typed rfl
      have spelled : config = String.ofList config.toList := String.ofList_toList.symm
      rw [spelled]
      refine ⟨_, by simp, ?_, fileName_typed t config.toList mode some,
        ofTokens_eq_ok_iff.mpr ⟨mode, workload, nonempty,
          .inr ⟨t, method, config.toList, some, ?_, rfl, rfl⟩⟩⟩
      · intro token mem
        simp only [List.mem_cons, List.mem_append, List.not_mem_nil, or_false] at mem
        rcases mem with rfl | (mem | rfl) | rfl | mem
        · exact isToken_scenarioName t
        · exact (methodTokens token mem).1
        · exact configToken.1
        · exact isToken_modeName mode
        · exact workloadTokens token mem
      · intro token mem
        rcases List.mem_append.mp mem with mem | mem
        · exact (methodTokens token mem).2
        · rw [List.mem_singleton.mp mem]
          exact configToken.2

/-- The accepted names are those of the well-formed runs. -/
theorem ofFileName_eq_ok_iff {name : String} {run : Run} :
    ofFileName name = .ok run ↔ run.WellFormed ∧ name = run.fileName := by
  constructor
  · intro named
    obtain ⟨tokens, -, all, cut, named⟩ := ofFileName_eq_ok_iff_tokens.mp named
    obtain ⟨good, name⟩ := wellFormed_of_ofTokens all named
    exact ⟨good, cut.trans name.symm⟩
  · rintro ⟨good, rfl⟩
    exact ofFileName_eq_ok_iff_tokens.mpr (ofTokens_of_wellFormed good)

/-- The run of a path is that of its last component. -/
theorem ofPath_eq_ofFileName {path : Path} (name : String)
    (last : path.fileName? = some (Utf8.encode name)) : ofPath path = ofFileName name := by
  rw [ofPath, last, Option.bind_some, Utf8.decode?_encode]

theorem dotted_ne_empty {workload : String} (tokens : IsDotted IsToken workload) :
    workload ≠ "" := by
  obtain ⟨tokens, nonempty, all, rfl⟩ := tokens
  cases tokens with
  | nil => exact absurd rfl nonempty
  | cons token rest =>
      have token : token ≠ [] := (all token List.mem_cons_self).1
      rw [Ne, ← String.toList_inj]
      cases rest with
      | nil => simpa [dotted] using token
      | cons next rest => simp [dotted, Text.join_cons, token]

/-- The workload of a well-formed run is what follows its mode, and it is not empty. -/
theorem workload_of_wellFormed {run : Run} (good : run.WellFormed) :
    run.workload ≠ "" ∧ run.runBase = run.mode.name ++ "." ++ run.workload := by
  obtain ⟨workload, tokens, base⟩ := good.runBase
  have spelled : run.runBase.toList = run.mode.name.toList ++ ['.'] ++ workload.toList := by
    rw [base]
    simp
  have found : run.workload = workload := by
    have front : (run.mode.name.toList ++ ['.']).isPrefixOf run.runBase.toList = true := by
      rw [spelled, List.isPrefixOf_iff_prefix]
      exact List.prefix_append _ _
    simp only [Run.workload, front, if_true]
    rw [spelled, List.drop_left, String.ofList_toList]
  rw [found]
  exact ⟨dotted_ne_empty tokens, base⟩

/-- Accepted file names and well-formed runs correspond: a name is accepted for a run exactly if
the run is well formed and this is its name, so no run has two names, and the run base of an accepted
name is the mode, a dot and a workload that is not empty. -/
theorem fileNames_correspond :
    (∀ (name : String) (run : Run),
      ofFileName name = .ok run ↔ run.WellFormed ∧ name = run.fileName) ∧
    (∀ (first second : String) (run : Run),
      ofFileName first = .ok run → ofFileName second = .ok run → first = second) ∧
    (∀ (name : String) (run : Run), ofFileName name = .ok run →
      run.workload ≠ "" ∧ run.runBase = run.mode.name ++ "." ++ run.workload) := by
  refine ⟨fun name run => ofFileName_eq_ok_iff, ?_, ?_⟩
  · intro first second run named named'
    exact (ofFileName_eq_ok_iff.mp named).2.trans (ofFileName_eq_ok_iff.mp named').2.symm
  · intro name run named
    exact workload_of_wellFormed (ofFileName_eq_ok_iff.mp named).1

/-- A workload may contain a mode word, and the correspondence holds of a name with one. -/
theorem fileNames_correspond_rate_mix :
    ofFileName "benign.para.512.rate.mix.429.mcf.out" =
        .ok ⟨some .benign, "para", "512", .rate, "rate.mix.429.mcf"⟩ ∧
      "mix.429.mcf" ≠ "" ∧
      WellFormed ⟨some .benign, "para", "512", .rate, "rate.mix.429.mcf"⟩ ∧
      ∀ name, ofFileName name = .ok ⟨some .benign, "para", "512", .rate, "rate.mix.429.mcf"⟩ →
        name = "benign.para.512.rate.mix.429.mcf.out" := by
  have named : ofFileName "benign.para.512.rate.mix.429.mcf.out" =
      .ok ⟨some .benign, "para", "512", .rate, "rate.mix.429.mcf"⟩ := by rfl
  exact ⟨named, (fileNames_correspond.2.2 _ _ named).1,
    ((fileNames_correspond.1 _ _).mp named).1,
    fun name named' => fileNames_correspond.2.1 _ _ _ named' named⟩

end SpeedupStudy.Run
