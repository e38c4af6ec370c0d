import LispFront.Proofs.Json.Symbol

/-! # The reading of a JSON text

A text is read as a value if it is a written form of the value, and only then
(`ofText?_eq_some_iff`). What a reader has behind it can be told from its state
(`Reader.behind`), so that the symbols that lead to a value are those of the value. -/

namespace LispFront.Json

/-! ## Where a value may begin -/

namespace Reader

/-- Where a value may begin. -/
def AwaitsValue (reader : Reader) : Prop :=
  ∀ symbol, symbol ≠ .closeArray → reader.step? symbol = readValue? reader.frames symbol

theorem awaitsValue_value (frames : List Frame) : AwaitsValue ⟨frames, .value⟩ := by
  intro symbol _
  rfl

theorem awaitsValue_firstItem (frames : List Frame) :
    AwaitsValue ⟨frames, .firstItem⟩ := by
  intro symbol noEnd
  cases symbol with
  | closeArray => exact absurd rfl noEnd
  | _ => rfl

end Reader

/-! ## What a reader has behind it -/

private theorem itemSymbols_eq_map (items : List Json) :
    itemSymbols items = items.map symbols := by
  induction items with
  | nil => rfl
  | cons item items induction => rw [itemSymbols, induction, List.map_cons]

private theorem memberSymbols_eq_map (members : List (JsonText × Json)) :
    memberSymbols members =
      members.map fun (key, value) => .string key :: .colon :: value.symbols := by
  induction members with
  | nil => rfl
  | cons member members induction => rw [memberSymbols, induction, List.map_cons]

theorem commaSeparated_nil : commaSeparated [] = [] :=
  List.intercalate_nil

theorem commaSeparated_singleton (part : List Symbol) : commaSeparated [part] = part :=
  List.intercalate_singleton

theorem commaSeparated_cons_cons (part next : List Symbol) (parts : List (List Symbol)) :
    commaSeparated (part :: next :: parts) =
      part ++ .comma :: commaSeparated (next :: parts) := by
  simp [commaSeparated, List.intercalate_cons_cons]

def commaEnded (parts : List (List Symbol)) : List Symbol :=
  parts.flatMap (· ++ [.comma])

private theorem commaSeparated_concat (parts : List (List Symbol)) (last : List Symbol) :
    commaSeparated (parts ++ [last]) = commaEnded parts ++ last := by
  induction parts with
  | nil => exact commaSeparated_singleton last
  | cons part parts induction =>
      obtain ⟨next, later, parts⟩ : ∃ next later, parts ++ [last] = next :: later :=
        List.exists_cons_of_ne_nil (by simp)
      rw [List.cons_append, parts, commaSeparated_cons_cons, ← parts, induction]
      simp [commaEnded]

def Frame.symbols : Frame → List Symbol
  | .array items => .openArray :: commaEnded (itemSymbols items.toList)
  | .object members key =>
      .openObject :: (commaEnded (memberSymbols members.toList) ++ [.string key, .colon])

def Expectation.symbols : Expectation → List Symbol
  | .value | .firstItem => []
  | .firstKey => [.openObject]
  | .key members => .openObject :: commaEnded (memberSymbols members.toList)
  | .colon members name =>
      .openObject :: (commaEnded (memberSymbols members.toList) ++ [.string name])
  | .separator complete => complete.symbols

namespace Reader

/-- The symbols that have been read. -/
def behind (reader : Reader) : List Symbol :=
  reader.frames.reverse.flatMap Frame.symbols ++ reader.expectation.symbols

def IsFresh : Reader → Prop
  | ⟨frames, .firstItem⟩ => ∃ outer, frames = .array #[] :: outer
  | _ => True

private theorem behind_readValue? {frames : List Frame} {symbol : Symbol} {next : Reader}
    (step : readValue? frames symbol = some next) :
    next.behind = frames.reverse.flatMap Frame.symbols ++ [symbol] ∧ next.IsFresh := by
  cases symbol <;> cases step
  case openArray =>
    exact ⟨by simp [behind, Frame.symbols, itemSymbols, commaEnded, Expectation.symbols],
      _, rfl⟩
  all_goals exact ⟨by simp [behind, Expectation.symbols, symbols], trivial⟩

private theorem behind_readSeparator? {value : Json} {frames : List Frame}
    {symbol : Symbol} {next : Reader}
    (step : readSeparator? value frames symbol = some next) :
    next.behind = frames.reverse.flatMap Frame.symbols ++ value.symbols ++ [symbol] ∧
      next.IsFresh := by
  unfold readSeparator? at step
  split at step <;> cases step
  · refine ⟨?_, trivial⟩
    simp [behind, Frame.symbols, Expectation.symbols, itemSymbols_eq_map, commaEnded]
  · refine ⟨?_, trivial⟩
    simp [behind, Frame.symbols, Expectation.symbols, symbols, itemSymbols_eq_map,
      commaSeparated_concat]
  · refine ⟨?_, trivial⟩
    simp [behind, Frame.symbols, Expectation.symbols, memberSymbols_eq_map, commaEnded]
  · refine ⟨?_, trivial⟩
    simp [behind, Frame.symbols, Expectation.symbols, symbols, memberSymbols_eq_map,
      commaSeparated_concat]

private theorem behind_step? {reader next : Reader} {symbol : Symbol}
    (fresh : reader.IsFresh) (step : reader.step? symbol = some next) :
    next.behind = reader.behind ++ [symbol] ∧ next.IsFresh := by
  obtain ⟨frames, expectation⟩ := reader
  cases expectation with
  | value =>
      simp only [behind, Expectation.symbols, List.append_nil]
      exact behind_readValue? step
  | firstItem =>
      obtain ⟨outer, rfl⟩ := fresh
      simp only [behind, Expectation.symbols, List.append_nil]
      by_cases closes : symbol = .closeArray
      · subst closes
        cases step
        refine ⟨?_, trivial⟩
        simp [Frame.symbols, symbols, itemSymbols, commaSeparated, commaEnded]
      · rw [awaitsValue_firstItem _ symbol closes] at step
        exact behind_readValue? step
  | firstKey =>
      cases symbol <;> cases step
      · refine ⟨?_, trivial⟩
        simp [behind, Expectation.symbols, symbols, memberSymbols, commaSeparated]
      · refine ⟨?_, trivial⟩
        simp [behind, Expectation.symbols, memberSymbols, commaEnded]
  | key members =>
      cases symbol <;> cases step
      exact ⟨by simp [behind, Expectation.symbols], trivial⟩
  | colon members key =>
      cases symbol <;> cases step
      exact ⟨by simp [behind, Frame.symbols, Expectation.symbols], trivial⟩
  | separator value => exact behind_readSeparator? step

private theorem behind_foldlM {reader final : Reader} {symbols : List Symbol}
    (fresh : reader.IsFresh) (steps : symbols.foldlM step? reader = some final) :
    final.behind = reader.behind ++ symbols := by
  induction symbols generalizing reader with
  | nil =>
      cases steps
      exact (List.append_nil _).symm
  | cons symbol symbols induction =>
      rw [List.foldlM_cons, Option.bind_eq_bind, Option.bind_eq_some_iff] at steps
      obtain ⟨next, step, steps⟩ := steps
      obtain ⟨behind, nextFresh⟩ := behind_step? fresh step
      rw [induction nextFresh steps, behind, List.append_assoc]
      rfl

/-! ## The symbols of a value -/

def AwaitsKey (reader : Reader) (members : Array (JsonText × Json)) : Prop :=
  ∀ key, reader.step? (.string key) = some ⟨reader.frames, .colon members key⟩

/-- A reader takes the symbols of the value wherever one may begin. -/
def Takes (value : Json) : Prop :=
  ∀ reader : Reader, reader.AwaitsValue →
    value.symbols.foldlM step? reader = some ⟨reader.frames, .separator value⟩

theorem Takes.foldlM_append {value : Json} (takes : Takes value) {reader : Reader}
    (awaits : reader.AwaitsValue) (later : List Symbol) :
    (value.symbols ++ later).foldlM step? reader =
      later.foldlM step? ⟨reader.frames, .separator value⟩ := by
  rw [List.foldlM_append, takes reader awaits]
  rfl

theorem foldlM_items {item : Json} {items : List Json}
    (each : ∀ other ∈ item :: items, Takes other) {reader : Reader}
    (awaits : reader.AwaitsValue) {frames : List Frame} {before : Array Json}
    (inside : reader.frames = .array before :: frames) :
    (commaSeparated (itemSymbols (item :: items)) ++ [Symbol.closeArray]).foldlM step?
      reader = some ⟨frames, .separator (.array (before.toList ++ item :: items))⟩ := by
  have first := (each item List.mem_cons_self).foldlM_append awaits
  rw [inside] at first
  induction items generalizing item reader before with
  | nil =>
      rw [itemSymbols, itemSymbols, commaSeparated_singleton, first]
      simp [step?, readSeparator?]
  | cons next items induction =>
      have awaitsNext := awaitsValue_value (.array (before.push item) :: frames)
      have later :=
        induction (fun other member => each other (List.mem_cons_of_mem item member))
          awaitsNext rfl ((each next (by simp)).foldlM_append awaitsNext)
      have parts :
          commaSeparated (itemSymbols (item :: next :: items)) ++ [Symbol.closeArray] =
            item.symbols ++ .comma ::
              (commaSeparated (itemSymbols (next :: items)) ++ [Symbol.closeArray]) := by
        simp [itemSymbols, commaSeparated_cons_cons]
      rw [parts, first]
      refine later.trans ?_
      simp

theorem Takes.foldlM_member {member : JsonText × Json} (takes : Takes member.2)
    {reader : Reader} {before : Array (JsonText × Json)}
    (awaits : reader.AwaitsKey before) (later : List Symbol) :
    (Symbol.string member.1 :: .colon :: (member.2.symbols ++ later)).foldlM step? reader
      = later.foldlM step?
        ⟨.object before member.1 :: reader.frames, .separator member.2⟩ := by
  rw [List.foldlM_cons, awaits member.1]
  exact takes.foldlM_append
    (awaitsValue_value (.object before member.1 :: reader.frames)) later

theorem foldlM_members {member : JsonText × Json} {members : List (JsonText × Json)}
    (each : ∀ other ∈ member :: members, Takes other.2) {reader : Reader}
    {before : Array (JsonText × Json)} (awaits : reader.AwaitsKey before) :
    (commaSeparated (memberSymbols (member :: members)) ++ [Symbol.closeObject]).foldlM
        step? reader =
      some ⟨reader.frames,
        .separator (.object (before.toList ++ member :: members))⟩ := by
  have first := (each member List.mem_cons_self).foldlM_member awaits
  induction members generalizing member reader before with
  | nil =>
      rw [memberSymbols, memberSymbols, commaSeparated_singleton, List.cons_append,
        List.cons_append, first]
      simp [step?, readSeparator?]
  | cons next members induction =>
      have awaitsNext :
          AwaitsKey ⟨reader.frames, .key (before.push member)⟩ (before.push member) :=
        fun _ => rfl
      have later :=
        induction (fun other known => each other (List.mem_cons_of_mem member known))
          awaitsNext ((each next (by simp)).foldlM_member awaitsNext)
      have parts :
          commaSeparated (memberSymbols (member :: next :: members)) ++
              [Symbol.closeObject] =
            .string member.1 :: .colon :: (member.2.symbols ++ .comma ::
              (commaSeparated (memberSymbols (next :: members)) ++
                [Symbol.closeObject])) := by
        simp [memberSymbols, commaSeparated_cons_cons]
      rw [parts, first]
      refine later.trans ?_
      simp

private theorem takes_array {items : List Json} (each : ∀ item ∈ items, Takes item) :
    Takes (.array items) := by
  intro reader awaits
  rw [symbols, List.foldlM_cons, awaits _ (by simp), readValue?, Option.bind_eq_bind,
    Option.bind_some]
  cases items with
  | nil => rfl
  | cons item items => exact foldlM_items each (awaitsValue_firstItem _) rfl

private theorem takes_object {members : List (JsonText × Json)}
    (each : ∀ member ∈ members, Takes member.2) : Takes (.object members) := by
  intro reader awaits
  rw [symbols, List.foldlM_cons, awaits _ (by simp), readValue?, Option.bind_eq_bind,
    Option.bind_some]
  cases members with
  | nil => rfl
  | cons member members =>
      have awaitsFirst : AwaitsKey ⟨reader.frames, .firstKey⟩ #[] := fun _ => rfl
      exact foldlM_members each awaitsFirst

mutual

theorem takes (value : Json) : Takes value := by
  cases value with
  | null | bool _ | number _ | string _ =>
      intro reader awaits
      simp only [symbols, List.foldlM_cons, List.foldlM_nil]
      rw [awaits _ (by simp)]
      rfl
  | array items => exact takes_array (takes_items items)
  | object members => exact takes_object (takes_members members)

theorem takes_items (items : List Json) : ∀ item ∈ items, Takes item := by
  cases items with
  | nil => simp
  | cons item items => exact List.forall_mem_cons.mpr ⟨takes item, takes_items items⟩

theorem takes_members (members : List (JsonText × Json)) :
    ∀ member ∈ members, Takes member.2 := by
  cases members with
  | nil => simp
  | cons member members =>
      obtain ⟨key, value⟩ := member
      exact List.forall_mem_cons.mpr ⟨takes value, takes_members members⟩

end

end Reader

/-- A text is read as the value that it is a written form of, and as no other. -/
theorem ofText?_eq_some_iff {text : String} {value : Json} :
    ofText? text = some value ↔ value.WrittenAs text.toList := by
  constructor
  · intro read
    obtain ⟨final, run, complete⟩ := Option.bind_eq_some_iff.mp read
    obtain ⟨symbols, written, steps⟩ := Reader.exists_written_of_run? run
    have fresh : Reader.initial.IsFresh := trivial
    have behind := Reader.behind_foldlM fresh steps
    obtain ⟨frames, expectation⟩ := final
    cases frames with
    | cons frame frames => cases complete
    | nil =>
        cases expectation with
        | separator complete' =>
            cases complete
            have same : symbols = value.symbols := behind.symm
            rwa [WrittenAs, ← same]
        | _ => cases complete
  · intro written
    have steps := Reader.takes value .initial (Reader.awaitsValue_value [])
    rw [ofText?, Reader.run?_of_written written steps]
    rfl

end LispFront.Json
