/-
# Positions in range

A name is read by the positions of its tokens, and the solo rates of a mix run are taken from the
slots of its mix by position. Here both are computed so that a position out of range, or a
difference below zero, gives nothing. They give the same as without these checks, for every name and
every machine, so no such position or difference ever occurs.
-/

import SpeedupStudy.Proofs.Catalog.Resolve
import SpeedupStudy.Proofs.Run.FileName

namespace SpeedupStudy

/-- A difference that is not negative. -/
def difference? (a b : Nat) : Option Nat :=
  if b ≤ a then some (a - b) else none

/-- The items from a position up to another one, if the list reaches there. -/
def slice? {α : Type} (items : List α) (start stop : Nat) : Option (List α) :=
  if start ≤ stop ∧ stop ≤ items.length then some ((items.take stop).drop start) else none

theorem difference?_of_le {a b : Nat} (le : b ≤ a) : difference? a b = some (a - b) :=
  if_pos le

theorem slice?_of_le {α : Type} {items : List α} {start stop : Nat} (ordered : start ≤ stop)
    (reached : stop ≤ items.length) :
    slice? items start stop = some ((items.take stop).drop start) :=
  if_pos ⟨ordered, reached⟩

namespace Run

/-- The position of the first mode word among some tokens, if each of these positions has a
token. -/
def anchorAt? (tokens : List (List Char)) (start count : Nat) : Option (Option Nat) :=
  (List.range' start count).findM? fun position =>
    tokens[position]?.map fun token => (modeOfToken? token).isSome

/-- The run that a list of tokens names, read by the positions of the tokens. There is none where a
position is out of range. -/
def ofTokensAt? (tokens : List (List Char)) : Option (Except NameError Run) := do
  match ← anchorAt? tokens 1 (tokens.length - 1 - 1) with
  | none => return .error .missingModeAnchor
  | some anchor =>
    match modeOfToken? (← tokens[anchor]?) with
    | none => return .error .missingModeAnchor
    | some mode =>
      let base ← slice? tokens anchor tokens.length
      let first ← tokens[0]?
      if anchor = 1 ∧ String.ofList first = baselineMethod then
        return .ok ⟨none, baselineMethod, baselineConfig, mode, dotted base⟩
      else if anchor < 3 then
        return .error .tooFewTokens
      else
        match Scenario.ofName? (String.ofList first) with
        | none => return .error (.unknownScenario (String.ofList first))
        | some t =>
          let last ← difference? anchor 1
          let method ← slice? tokens 1 last
          let config ← tokens[last]?
          return .ok ⟨some t, dotted method, String.ofList config, mode, dotted base⟩

/-- The search goes on behind a token that is no mode word. -/
theorem anchorAt?_succ {tokens : List (List Char)} {start : Nat} {token : List Char}
    (found : tokens[start]? = some token) (count : Nat) :
    anchorAt? tokens start (count + 1) =
      if (modeOfToken? token).isSome then some (some start)
      else anchorAt? tokens (start + 1) count := by
  simp only [anchorAt?, List.range'_succ, List.findM?, found, Option.map_some,
    Option.bind_eq_bind, Option.bind_some]
  cases modeOfToken? token <;> rfl

/-- The anchor is where the tokens are cut. Positions count the tokens in front, too. -/
theorem anchorAt?_append (front tokens : List (List Char)) :
    anchorAt? (front ++ tokens) front.length (tokens.length - 1) =
      some ((cutAtMode? tokens).map fun cut => front.length + cut.1.length) := by
  -- A token that is passed over joins the front, so the search always starts where the front ends.
  induction tokens generalizing front with
  | nil => rfl
  | cons token rest ih =>
      cases rest with
      | nil => rfl
      | cons next rest =>
          have here : (front ++ token :: next :: rest)[front.length]? = some token := by simp
          have later := ih (front ++ [token])
          rw [List.append_assoc, List.singleton_append, List.length_append,
            List.length_singleton] at later
          have remaining : (token :: next :: rest).length - 1 = (next :: rest).length - 1 + 1 := rfl
          rw [remaining, anchorAt?_succ here, later]
          cases found : modeOfToken? token with
          | some mode => simp [cutAtMode?, found]
          | none =>
              simp only [cutAtMode?, found, Option.isSome_none, Bool.false_eq_true, if_false,
                Option.map_map, Function.comp_def, List.length_cons]
              congr 3
              funext cut
              omega

/-- The tokens between the first one and the anchor, by position: all but the last of them, and the
last one. -/
theorem parts_before_anchor (first : List Char) {front : List (List Char)}
    (nonempty : front ≠ []) (rest : List (List Char)) :
    slice? (first :: (front ++ rest)) 1 front.length = some front.dropLast ∧
      ∃ last, (first :: (front ++ rest))[front.length]? = some last ∧
        front.drop (front.length - 1) = [last] := by
  obtain ⟨others, last, rfl⟩ := (List.eq_nil_or_concat front).resolve_left nonempty
  refine ⟨?_, last, by simp, by simp⟩
  rw [slice?_of_le (by simp) (by simp)]
  simp

/-- Reading the tokens of a name by position never leaves the name. -/
theorem ofTokensAt?_eq (tokens : List (List Char)) :
    ofTokensAt? tokens = some (ofTokens tokens) := by
  cases tokens with
  | nil => rfl
  | cons first rest =>
      have anchor := anchorAt?_append [first] rest
      rw [List.singleton_append, List.length_singleton] at anchor
      have fewer : (first :: rest).length - 1 - 1 = rest.length - 1 := rfl
      rw [ofTokensAt?, fewer, anchor, ofTokens]
      cases cut : cutAtMode? rest with
      | none => rfl
      | some parts =>
          obtain ⟨before, mode, base⟩ := parts
          obtain ⟨-, workload, -, rfl, rfl⟩ := cutAtMode?_eq_some_iff.mp cut
          have here : (first :: (before ++ mode.name.toList :: workload))[1 + before.length]? =
              some mode.name.toList := by
            rw [Nat.add_comm, List.getElem?_cons_succ]
            simp
          have base : slice? (first :: (before ++ mode.name.toList :: workload)) (1 + before.length)
              (first :: (before ++ mode.name.toList :: workload)).length =
                some (mode.name.toList :: workload) := by
            rw [slice?_of_le (by simp; omega) (Nat.le_refl _), List.take_length, Nat.add_comm]
            simp
          simp only [Option.bind_eq_bind, Option.bind_some, Option.map_some, here, base,
            modeOfToken?_eq_some_iff.mpr rfl, List.getElem?_cons_zero]
          -- The tokens before the anchor decide how much of the name is read.
          rcases before with _ | ⟨method, _ | ⟨config, before⟩⟩
          · by_cases short : String.ofList first = baselineMethod <;> simp [short]
          · simp
          · have long : ¬ 1 + (method :: config :: before).length < 3 := by
              simp only [List.length_cons]
              omega
            have typed : ¬ 1 + (method :: config :: before).length = 1 := by simp
            have last : difference? (1 + (method :: config :: before).length) 1 =
                some (method :: config :: before).length := by
              rw [difference?_of_le (Nat.le_add_right _ _), Nat.add_sub_cancel_left]
            obtain ⟨methods, config', found, only⟩ :=
              parts_before_anchor first (List.cons_ne_nil method (config :: before))
                (mode.name.toList :: workload)
            simp only [typed, false_and, if_false, long, last, methods, found, only,
              Option.bind_some, dotted_singleton]
            cases Scenario.ofName? (String.ofList first) <;> rfl

end Run

namespace Catalog

/-- The solo rates of the cores of a run, taken from the slots of its mix by position. There are
none where a position is out of range. -/
def soloIpcsAt? (c : Catalog) (run : Run) (machine : Machine) :
    Option (Except ResolveError (List Float)) := do
  let reserved := machine.reservedCores run.effectiveScenario
  let benign ← difference? machine.coreCount reserved
  match run.mode with
  | .single => return (c.lookup run.workload).map (List.replicate (min machine.coreCount 1))
  | .rate => return (c.lookup run.workload).map (List.replicate benign)
  | .mix =>
    match c.mix? run.workload with
    | none => return .error (.unknownMix run.workload)
    | some assigned =>
      if assigned.length < machine.coreCount then
        return .error (.mixTooShort run.workload machine.coreCount assigned.length)
      else
        return c.lookupAll (← slice? assigned reserved machine.coreCount)

theorem reservedCores_le (machine : Machine) (t : Scenario) :
    machine.reservedCores t ≤ machine.coreCount := by
  cases t with
  | benign => exact Nat.zero_le _
  | malicious => exact Nat.min_le_right _ _

/-- Taking the solo rates by position never leaves the mix, and never takes more cores away than
there are. -/
theorem soloIpcsAt?_eq (c : Catalog) (run : Run) (machine : Machine) :
    c.soloIpcsAt? run machine = some (c.soloIpcs run machine) := by
  have reserved := reservedCores_le machine run.effectiveScenario
  simp only [soloIpcsAt?, soloIpcs, difference?_of_le reserved, Option.bind_eq_bind,
    Option.bind_some]
  cases run.mode with
  | single => rfl
  | rate => rfl
  | mix =>
      cases c.mix? run.workload with
      | none => rfl
      | some assigned =>
          by_cases short : assigned.length < machine.coreCount
          · simp only [if_pos short]
            rfl
          · have slots := slice?_of_le reserved (Nat.le_of_not_lt short)
            simp only [if_neg short, slots, Option.bind_some]
            rfl

end Catalog

end SpeedupStudy
