import Ladybug.CommandLine
import Ladybug.Proofs.Text

/-!
# Arguments that can be read

Arguments are read one after the other, with one option at most waiting for values. Seen from
outside they are a list of options. An option has one value attached to it with an equals sign,
or its values follow it as arguments of their own, and these must not look like options. Nothing
may come after two dashes, but the two dashes may end the list.

The reader accepts exactly the arguments that can be taken apart in this way, provided that the
options that are not repeatable are given at most once, and that trees come with a board. In
which order the options come, and how the trees are spread over several options, does not matter
beyond the order of the trees.

## Main definitions

* `Request.Spells` — arguments taken apart into options with their values.
* `Request.Once` — options that are not repeatable are given at most once.

## Main results

* `Argument.ofText_eq_option_iff` — how an option is written.
* `Request.parseFrom_waiting_iff` — an option that waits gets the values that follow.
* `Request.parse_eq_run_iff` — the arguments that are accepted, and what they name.
-/

namespace Ladybug

/-! ### Single arguments -/

namespace Argument

/-- The argument does not look like an option. A single dash is a value. -/
def isPlain (text : String) : Bool := text.toList.head? != some '-' || text.toList == ['-']

/-- An option as it is written, with a value attached to it or without one. -/
def written (name : String) : Option String → String
  | none => name
  | some text => name ++ "=" ++ text

/-- The characters of an option with a value attached to it. -/
theorem toList_written (name text : String) :
    (written name (some text)).toList = name.toList ++ '=' :: text.toList := by
  simp [written]

section Attached

variable {cs rest : List Char}

/-- Without an equals sign nothing is attached. -/
theorem splitAttached_of_not_mem (h : '=' ∉ cs) : splitAttached cs = (String.ofList cs, none) := by
  have hall : ∀ c ∈ cs, (c != '=') = true := fun c hc => bne_iff_ne.mpr (ne_of_mem_of_not_mem hc h)
  rw [splitAttached, List.takeWhile_eq_self_iff.mpr hall, List.dropWhile_eq_nil_iff.mpr hall]

/-- What is attached begins behind the first equals sign. -/
theorem splitAttached_append (h : '=' ∉ cs) :
    splitAttached (cs ++ '=' :: rest) = (String.ofList cs, some (String.ofList rest)) := by
  have hall : ∀ c ∈ cs, (c != '=') = true := fun c hc => bne_iff_ne.mpr (ne_of_mem_of_not_mem hc h)
  have hstop : ∀ c ∈ ('=' :: rest).head?, (c != '=') = false := by simp
  rw [splitAttached, Text.takeWhile_append hall hstop, Text.dropWhile_append hall hstop]

/-- The two parts make up the argument again. -/
theorem written_of_splitAttached {name : String} {attached : Option String}
    (h : splitAttached cs = (name, attached)) : written name attached = String.ofList cs := by
  have hcs := List.takeWhile_append_dropWhile (p := (· != '=')) (l := cs)
  rw [splitAttached] at h
  split at h
  · rename_i hrest
    obtain ⟨rfl, rfl⟩ := Prod.mk.inj h
    rw [hrest, List.append_nil] at hcs
    rw [written, hcs]
  · rename_i c rest hrest
    obtain ⟨rfl, rfl⟩ := Prod.mk.inj h
    have hc : c = '=' := by
      have hhead := List.head?_dropWhile_not (· != '=') cs
      rw [hrest] at hhead
      simpa using hhead
    rw [hrest, hc] at hcs
    apply String.toList_injective
    rw [toList_written, String.toList_ofList, String.toList_ofList, hcs, String.toList_ofList]

end Attached

/-- What an argument is that begins with two dashes and goes on. -/
theorem ofText_of_dashes {text : String} {c : Char} {cs : List Char}
    (h : text.toList = '-' :: '-' :: c :: cs) :
    ofText text =
      let (name, attached) := splitAttached text.toList
      match Inquiry.all.find? fun i => i.name == name && attached.isNone with
      | some i => .inquiry i
      | none =>
        match ProgramOption.all.find? fun o => o.name == name with
        | some o => .option o attached
        | none => .unknown := by
  rw [ofText, h]
  rfl

/-- Options have different names. -/
theorem find?_name (option : ProgramOption) :
    (ProgramOption.all.find? fun o => o.name == option.name) = some option := by
  cases option <;> decide

/-- The characters of the name of an option. -/
theorem exists_toList_name (option : ProgramOption) :
    '=' ∉ option.name.toList ∧ ∃ c cs, option.name.toList = '-' :: '-' :: c :: cs := by
  cases option <;> exact ⟨by decide, _, _, rfl⟩

/-- An option is read as it is written. -/
theorem ofText_written (option : ProgramOption) (attached : Option String) :
    ofText (written option.name attached) = .option option attached := by
  obtain ⟨hsign, c, cs, hname⟩ := exists_toList_name option
  have hsplit : splitAttached (written option.name attached).toList = (option.name, attached) := by
    cases attached with
    | none => rw [written, splitAttached_of_not_mem hsign, String.ofList_toList]
    | some text =>
        rw [toList_written, splitAttached_append hsign, String.ofList_toList,
          String.ofList_toList]
  have hdashes : ∃ cs', (written option.name attached).toList = '-' :: '-' :: c :: cs' := by
    cases attached with
    | none => exact ⟨cs, hname⟩
    | some text =>
        refine ⟨cs ++ '=' :: text.toList, ?_⟩
        rw [toList_written, hname]
        rfl
  obtain ⟨cs', hdashes⟩ := hdashes
  have hinquiry : (Inquiry.all.find? fun i => i.name == option.name && attached.isNone) = none := by
    cases option <;> cases attached <;> rfl
  rw [ofText_of_dashes hdashes, hsplit]
  simp only [hinquiry, find?_name]

/-- Options do not look like values. -/
theorem isPlain_written (option : ProgramOption) (attached : Option String) :
    isPlain (written option.name attached) = false := by
  obtain ⟨-, c, cs, hname⟩ := exists_toList_name option
  cases attached with
  | none => simp [isPlain, written, hname]
  | some text => simp [isPlain, toList_written, hname]

/-- What an argument may be read as, given how it is written. -/
inductive Reads : String → Argument → Prop
  | value {text : String} (hplain : isPlain text = true) : Reads text (.value text)
  | option (option : ProgramOption) (attached : Option String) :
      Reads (written option.name attached) (.option option attached)
  | endOfOptions : Reads "--" .endOfOptions
  | inquiry {text : String} (hplain : isPlain text = false) (i : Inquiry) : Reads text (.inquiry i)
  | unknown {text : String} (hplain : isPlain text = false) : Reads text .unknown

/-- **Options are what is written as an option**, and values are what does not look like one. -/
theorem reads_ofText (text : String) : Reads text (ofText text) := by
  have hdash {cs : List Char} (h : text.toList = '-' :: cs) (hcs : cs ≠ []) :
      isPlain text = false := by
    simp [isPlain, h, hcs]
  rw [ofText]
  split
  · rename_i htext
    obtain rfl : text = "--" := String.toList_injective htext
    exact .endOfOptions
  · rename_i cs _ htext
    obtain ⟨name, attached, hsplit⟩ : ∃ name attached,
        splitAttached ('-' :: '-' :: cs) = (name, attached) := ⟨_, _, rfl⟩
    have hwritten : written name attached = text := by
      rw [written_of_splitAttached hsplit, ← htext, String.ofList_toList]
    have hplain := hdash htext (List.cons_ne_nil _ _)
    rw [hsplit]
    dsimp only
    split
    · exact .inquiry hplain _
    · split
      · rename_i option hfind
        obtain rfl : option.name = name := by simpa using List.find?_some hfind
        exact hwritten ▸ .option option attached
      · exact .unknown hplain
  · rename_i htext
    exact .value (by simp [isPlain, htext])
  · rename_i htext
    have hplain := hdash htext (List.cons_ne_nil _ _)
    split
    · exact .inquiry hplain _
    · exact .unknown hplain
  · rename_i hsingle hne
    refine .value ?_
    cases htext : text.toList with
    | nil => simp [isPlain, htext]
    | cons c cs =>
        by_cases hc : c = '-'
        · subst hc
          cases cs with
          | nil => exact absurd htext hsingle
          | cons c cs => exact absurd htext (hne c cs)
        · simp [isPlain, htext, hc]

/-- A value is read as it is written. -/
theorem ofText_of_plain {text : String} (h : isPlain text = true) : ofText text = .value text := by
  have hread := reads_ofText text
  generalize ofText text = argument at hread ⊢
  cases hread with
  | value _ => rfl
  | option option attached => rw [isPlain_written] at h; cases h
  | endOfOptions => revert h; decide
  | inquiry hplain _ => rw [hplain] at h; cases h
  | unknown hplain => rw [hplain] at h; cases h

end Argument

/-! ### Values that were given -/

namespace Request

open Argument

/-- The values that may follow an option as arguments of their own, if it already has some of
them or not. -/
structure Admits (option : ProgramOption) (hasValue : Bool) (values : List String) : Prop where
  some_value : hasValue = true ∨ values ≠ []
  single : option.isRepeatable = true ∨ values.length = 1
  plain : ∀ value ∈ values, isPlain value = true ∧ option.takes value = true

/-- The option with each of the values. -/
def valued (option : ProgramOption) (values : List String) : Given := values.map (option, ·)

/-- The arguments can be taken apart into options with their values. -/
inductive Spells : List String → Given → Prop
  | nil : Spells [] []
  | endOfOptions : Spells ["--"] []
  /-- The value is attached to the option. -/
  | attached {option : ProgramOption} {value : String} {arguments : List String} {given : Given}
      (htakes : option.takes value = true) (hrest : Spells arguments given) :
      Spells ((option.name ++ "=" ++ value) :: arguments) ((option, value) :: given)
  /-- The values follow the option. -/
  | separate {option : ProgramOption} {values arguments : List String} {given : Given}
      (hvalues : Admits option false values) (hrest : Spells arguments given) :
      Spells (option.name :: (values ++ arguments)) (valued option values ++ given)

/-- Options that are not repeatable are given at most once. -/
def Once (given : Given) : Prop :=
  ∀ option : ProgramOption, option.isRepeatable = false → (valuesOf option given).length ≤ 1

variable {option : ProgramOption} {values arguments : List String} {given acc : Given}
  {p : Preload}

theorem valuesOf_append (option : ProgramOption) (given more : Given) :
    valuesOf option (given ++ more) = valuesOf option given ++ valuesOf option more := by
  rw [valuesOf, List.filter_append, List.map_append, valuesOf, valuesOf]

theorem valuesOf_valued (option : ProgramOption) (values : List String) :
    valuesOf option (valued option values) = values := by
  simp [valuesOf, valued, List.filter_map, Function.comp_def]

theorem valuesOf_valued_of_ne {other : ProgramOption} (h : option ≠ other)
    (values : List String) : valuesOf other (valued option values) = [] := by
  simp [valuesOf, valued, h]

/-- An option that may be given is still given at most once after that. -/
theorem Once.append_valued (h : Once acc) (hmay : mayGive option acc = true)
    (hsingle : option.isRepeatable = true ∨ values.length = 1) :
    Once (acc ++ valued option values) := by
  intro other hother
  rw [valuesOf_append]
  by_cases heq : option = other
  · subst heq
    have hnone : valuesOf option acc = [] := by simpa [mayGive, hother] using hmay
    have hlength : values.length = 1 := by simpa [hother] using hsingle
    rw [hnone, valuesOf_valued, List.nil_append, hlength]
  · rw [valuesOf_valued_of_ne heq, List.append_nil]
    exact h other hother

/-- An option that is given at most once in the end may be given. -/
theorem mayGive_of_once (h : Once (acc ++ (valued option values ++ given)))
    (hvalues : values ≠ []) : mayGive option acc = true := by
  cases hrepeatable : option.isRepeatable with
  | true => rw [mayGive, hrepeatable, Bool.true_or]
  | false =>
      have hlength := h option hrepeatable
      have hpos := List.length_pos_iff.mpr hvalues
      rw [valuesOf_append, valuesOf_append, valuesOf_valued, List.length_append,
        List.length_append] at hlength
      have hnone : valuesOf option acc = [] := List.length_eq_zero_iff.mp (by omega)
      rw [mayGive, hnone, List.isEmpty_nil, Bool.or_true]

/-! ### Reading arguments -/

/-- Nobody waits for a value at the beginning. -/
theorem parseFrom_none_of_plain {text : String} (h : isPlain text = true)
    (acc : Given) (arguments : List String) :
    parseFrom acc none ((text :: arguments).map ofText) = .misuse := by
  rw [List.map_cons, ofText_of_plain h, parseFrom]

/-- A value that follows an option belongs to it. -/
theorem parseFrom_of_plain {text : String} (h : isPlain text = true) (acc : Given)
    (option : ProgramOption) (hasValue : Bool) (arguments : List String) :
    parseFrom acc (some (option, hasValue)) ((text :: arguments).map ofText) =
      if option.takes text then
        parseFrom (acc ++ [(option, text)])
          (if option.isRepeatable then some (option, true) else none) (arguments.map ofText)
      else .misuse := by
  rw [List.map_cons, ofText_of_plain h, parseFrom]

/-- An option that has a value need not wait if no more values follow. -/
theorem parseFrom_of_not_plain (h : ∀ text ∈ arguments.head?, isPlain text = false) (acc : Given)
    (option : ProgramOption) (hasValue : Bool) :
    parseFrom acc (some (option, hasValue)) (arguments.map ofText) =
      if hasValue then parseFrom acc none (arguments.map ofText) else .misuse := by
  cases arguments with
  | nil => cases hasValue <;> rfl
  | cons text arguments =>
      have hread := reads_ofText text
      have htext := h text rfl
      rw [List.map_cons]
      generalize ofText text = argument at hread ⊢
      cases hread with
      | value hplain => rw [hplain] at htext; cases htext
      | option other attached => cases hasValue <;> simp [parseFrom, settled]
      | endOfOptions => cases hasValue <;> simp [parseFrom, settled]
      | inquiry _ _ => cases hasValue <;> simp [parseFrom, settled]
      | unknown _ => cases hasValue <;> simp [parseFrom]

/-- If no value follows, the option must have one already. -/
theorem parseFrom_waiting_iff_of_not_plain {hasValue : Bool}
    (hwaiting : option.isRepeatable = true ∨ hasValue = false)
    (h : ∀ text ∈ arguments.head?, isPlain text = false) :
    parseFrom acc (some (option, hasValue)) (arguments.map ofText) = .run p ↔
      ∃ values rest, arguments = values ++ rest ∧ Admits option hasValue values ∧
        parseFrom (acc ++ valued option values) none (rest.map ofText) = .run p := by
  have hnil : acc ++ valued option [] = acc := List.append_nil acc
  rw [parseFrom_of_not_plain h]
  constructor
  · intro hrun
    cases hasValue with
    | false => cases hrun
    | true =>
        refine ⟨[], arguments, rfl, ⟨.inl rfl, .inl (by simpa using hwaiting), by simp⟩, ?_⟩
        rw [hnil]
        exact hrun
  · rintro ⟨values, rest, rfl, hvalues, hrun⟩
    cases values with
    | nil =>
        have hvalue : hasValue = true := by simpa using hvalues.some_value
        rw [hnil] at hrun
        rw [if_pos hvalue]
        exact hrun
    | cons text values =>
        have hplain := (hvalues.plain text List.mem_cons_self).1
        rw [h text rfl] at hplain
        cases hplain

/-- One more value may stand before the others. -/
theorem Admits.cons {hasValue : Bool} {text : String} (hplain : isPlain text = true)
    (htakes : option.takes text = true) (hrepeatable : option.isRepeatable = true)
    (h : ∀ value ∈ values, isPlain value = true ∧ option.takes value = true) :
    Admits option hasValue (text :: values) :=
  ⟨.inr (List.cons_ne_nil _ _), .inl hrepeatable, List.forall_mem_cons.mpr ⟨⟨hplain, htakes⟩, h⟩⟩

/-- **An option that waits for values gets the plain arguments that follow**, all of them if it
is repeatable and one of them otherwise. -/
theorem parseFrom_waiting_iff {hasValue : Bool}
    (hwaiting : option.isRepeatable = true ∨ hasValue = false) :
    parseFrom acc (some (option, hasValue)) (arguments.map ofText) = .run p ↔
      ∃ values rest, arguments = values ++ rest ∧ Admits option hasValue values ∧
        parseFrom (acc ++ valued option values) none (rest.map ofText) = .run p := by
  induction arguments generalizing acc hasValue with
  | nil => exact parseFrom_waiting_iff_of_not_plain hwaiting (by simp)
  | cons text arguments ih =>
      cases hplain : isPlain text with
      | false => exact parseFrom_waiting_iff_of_not_plain hwaiting (by simpa using hplain)
      | true =>
          rw [parseFrom_of_plain hplain]
          constructor
          · intro hrun
            split at hrun
            · rename_i htakes
              cases hrepeatable : option.isRepeatable with
              | true =>
                  rw [hrepeatable, if_pos rfl, ih (.inl hrepeatable)] at hrun
                  obtain ⟨values, rest, rfl, hvalues, hrun⟩ := hrun
                  refine ⟨text :: values, rest, rfl,
                    .cons hplain htakes hrepeatable hvalues.plain, ?_⟩
                  rwa [List.append_assoc] at hrun
              | false =>
                  rw [hrepeatable] at hrun
                  exact ⟨[text], arguments, rfl, ⟨.inr (by simp), .inr rfl, by simp [*]⟩, hrun⟩
            · cases hrun
          · rintro ⟨values, rest, hsplit, hvalues, hrun⟩
            cases values with
            | nil =>
                rw [List.nil_append] at hsplit
                rw [← hsplit, parseFrom_none_of_plain hplain] at hrun
                cases hrun
            | cons value values =>
                obtain ⟨rfl, rfl⟩ := List.cons.inj hsplit
                rw [if_pos (hvalues.plain text List.mem_cons_self).2]
                cases hrepeatable : option.isRepeatable with
                | true =>
                    rw [if_pos rfl, ih (.inl hrepeatable)]
                    refine ⟨values, rest, rfl, ⟨.inl rfl, .inl hrepeatable, ?_⟩, ?_⟩
                    · exact fun value hvalue => hvalues.plain value (List.mem_cons_of_mem _ hvalue)
                    · rw [List.append_assoc]
                      exact hrun
                | false =>
                    have hnone : values = [] := by simpa [hrepeatable] using hvalues.single
                    subst hnone
                    exact hrun

/-- What is asked for if all arguments could be read. -/
theorem ofGiven_eq_run_iff : ofGiven given = .run p ↔
    p = ⟨(valuesOf .board given).head?, valuesOf .trees given⟩ ∧
      (valuesOf .trees given ≠ [] → valuesOf .board given ≠ []) := by
  rw [ofGiven]
  cases valuesOf .board given <;> cases valuesOf .trees given <;> simp [eq_comm]

/-- An attached value is the value of the option. -/
theorem parseFrom_attached (value : String) (rest : List String) :
    parseFrom acc none (((option.name ++ "=" ++ value) :: rest).map ofText) =
      if mayGive option acc && option.takes value then
        parseFrom (acc ++ valued option [value]) none (rest.map ofText)
      else .misuse := by
  have hoption : ofText (option.name ++ "=" ++ value) = .option option (some value) :=
    ofText_written option (some value)
  rw [List.map_cons, hoption, parseFrom, settled, Bool.true_and]
  cases mayGive option acc <;> cases option.takes value <;> rfl

/-- An option without an attached value waits for values. -/
theorem parseFrom_name (rest : List String) :
    parseFrom acc none ((option.name :: rest).map ofText) =
      if mayGive option acc then
        parseFrom acc (some (option, false)) (rest.map ofText)
      else .misuse := by
  have hoption : ofText option.name = .option option none := ofText_written option none
  rw [List.map_cons, hoption, parseFrom, settled, Bool.true_and]

/-- Whatever can be taken apart is accepted, after options that were read before. -/
theorem parseFrom_of_spells (h : Spells arguments given) (honce : Once (acc ++ given))
    (hrun : ofGiven (acc ++ given) = .run p) :
    parseFrom acc none (arguments.map ofText) = .run p := by
  induction h generalizing acc with
  | nil => rwa [List.append_nil] at hrun
  | endOfOptions => rwa [List.append_nil] at hrun
  | @attached option value arguments given htakes hrest ih =>
      have hgiven : acc ++ (option, value) :: given = acc ++ (valued option [value] ++ given) := rfl
      rw [hgiven] at honce hrun
      have hmay := mayGive_of_once honce (List.cons_ne_nil value [])
      rw [← List.append_assoc] at honce hrun
      rw [parseFrom_attached, hmay, htakes]
      exact ih honce hrun
  | @separate option values arguments given hvalues hrest ih =>
      have hmay := mayGive_of_once honce (by simpa using hvalues.some_value)
      rw [← List.append_assoc] at honce hrun
      rw [parseFrom_name, if_pos hmay, parseFrom_waiting_iff (.inr rfl)]
      exact ⟨values, arguments, rfl, hvalues, ih honce hrun⟩

/-- If the arguments are accepted, the first of them ends the options, or it is an option that may
be given, with values that it takes, and what follows these values is accepted as well. -/
theorem parseFrom_cons {text : String}
    (hrun : parseFrom acc none ((text :: arguments).map ofText) = .run p) :
    (text = "--" ∧ arguments = [] ∧ ofGiven acc = .run p) ∨
    ∃ option values rest, mayGive option acc = true ∧
      (option.isRepeatable = true ∨ values.length = 1) ∧ rest.length ≤ arguments.length ∧
      (∀ given, Spells rest given → Spells (text :: arguments) (valued option values ++ given)) ∧
      parseFrom (acc ++ valued option values) none (rest.map ofText) = .run p := by
  have hread := reads_ofText text
  generalize hargument : ofText text = argument at hread
  cases hread with
  | value hplain =>
      rw [parseFrom_none_of_plain hplain] at hrun
      cases hrun
  | option option attached =>
      right
      cases attached with
      | none =>
          rw [written, parseFrom_name] at hrun
          split at hrun
          · rename_i hmay
            obtain ⟨values, rest, rfl, hvalues, hrun⟩ := (parseFrom_waiting_iff (.inr rfl)).mp hrun
            refine ⟨option, values, rest, hmay, hvalues.single, ?_,
              fun _ hspells => .separate hvalues hspells, hrun⟩
            rw [List.length_append]
            exact Nat.le_add_left _ _
          · cases hrun
      | some value =>
          rw [written, parseFrom_attached] at hrun
          split at hrun
          · rename_i h
            obtain ⟨hmay, htakes⟩ := Bool.and_eq_true_iff.mp h
            exact ⟨option, [value], arguments, hmay, .inr rfl, Nat.le_refl _,
              fun _ hspells => .attached htakes hspells, hrun⟩
          · cases hrun
  | endOfOptions =>
      left
      rw [List.map_cons, hargument, parseFrom] at hrun
      cases arguments with
      | nil => exact ⟨rfl, rfl, hrun⟩
      | cons _ _ => cases hrun
  | inquiry _ _ =>
      rw [List.map_cons, hargument] at hrun
      cases hrun
  | unknown _ =>
      rw [List.map_cons, hargument] at hrun
      cases hrun

/-- Whatever is accepted can be taken apart. The induction is on the number of arguments, since
an option takes several of them at once. -/
theorem exists_spells_of_parseFrom (honce : Once acc)
    (hrun : parseFrom acc none (arguments.map ofText) = .run p) :
    ∃ given, Spells arguments given ∧ Once (acc ++ given) ∧ ofGiven (acc ++ given) = .run p := by
  induction hlength : arguments.length using Nat.strong_induction_on
    generalizing acc arguments with
  | _ n ih =>
      cases arguments with
      | nil => exact ⟨[], .nil, by rwa [List.append_nil], by rwa [List.append_nil]⟩
      | cons text arguments =>
          rcases parseFrom_cons hrun with
            ⟨rfl, rfl, hrun⟩ | ⟨option, values, rest, hmay, hsingle, hshorter, hspells, hrun⟩
          · exact ⟨[], .endOfOptions, by rwa [List.append_nil], by rwa [List.append_nil]⟩
          · have hless : rest.length < n := hlength ▸ Nat.lt_succ_of_le hshorter
            obtain ⟨given, hgiven, honce', hrun⟩ :=
              ih _ hless (honce.append_valued hmay hsingle) hrun rfl
            rw [List.append_assoc] at honce' hrun
            exact ⟨_, hspells given hgiven, honce', hrun⟩

/-- **The arguments that are accepted.** The program gets to run if and only if its arguments can
be taken apart into options, none of which is given more often than it may be, and trees come
with a board. The board is the value of its option, and the trees are the values of all options
for trees in their order. -/
theorem parse_eq_run_iff :
    parse arguments = .run p ↔
      ∃ given, Spells arguments given ∧ Once given ∧
        p = ⟨(valuesOf .board given).head?, valuesOf .trees given⟩ ∧
        (valuesOf .trees given ≠ [] → valuesOf .board given ≠ []) := by
  have hempty : Once [] := fun _ _ => Nat.zero_le 1
  constructor
  · intro hrun
    obtain ⟨given, hspells, honce, hgiven⟩ := exists_spells_of_parseFrom hempty hrun
    exact ⟨given, hspells, honce, ofGiven_eq_run_iff.mp hgiven⟩
  · rintro ⟨given, hspells, honce, hgiven⟩
    exact parseFrom_of_spells hspells honce (ofGiven_eq_run_iff.mpr hgiven)

example :
    parse ["--trees", "t1", "--board=b", "--log-level", "off", "--trees", "t2", "-", "--"] =
      .run ⟨some "b", ["t1", "t2", "-"]⟩ := by
  decide

/-- Every value is one that its option takes. -/
theorem Spells.takes (h : Spells arguments given) :
    ∀ entry ∈ given, entry.1.takes entry.2 = true := by
  induction h with
  | nil => simp
  | endOfOptions => simp
  | attached htakes _ ih => exact List.forall_mem_cons.mpr ⟨htakes, ih⟩
  | separate hvalues _ ih =>
      refine List.forall_mem_append.mpr ⟨?_, ih⟩
      simpa [valued] using fun value hvalue => (hvalues.plain value hvalue).2

theorem mem_valuesOf {value : String} :
    value ∈ valuesOf option given ↔ (option, value) ∈ given := by
  simp [valuesOf]

/-- If a board is to be loaded, its option was given exactly once. -/
theorem exists_spells_of_parse {board : String} {trees : List String}
    (h : parse arguments = .run ⟨some board, trees⟩) :
    ∃ given, Spells arguments given ∧ valuesOf .board given = [board] ∧
      valuesOf .trees given = trees := by
  obtain ⟨given, hspells, honce, hp, -⟩ := parse_eq_run_iff.mp h
  obtain ⟨hboard, htrees⟩ := Preload.mk.inj hp
  obtain ⟨rest, hvalues⟩ := List.head?_eq_some_iff.mp hboard.symm
  have hlength := honce .board rfl
  rw [hvalues] at hlength
  obtain rfl : rest = [] := List.length_eq_zero_iff.mp (Nat.le_zero.mp (Nat.le_of_lt_succ hlength))
  exact ⟨given, hspells, hvalues, htrees.symm⟩

/-- The files that are to be loaded have names. -/
theorem ne_empty_of_parse {board : String} {trees : List String}
    (h : parse arguments = .run ⟨some board, trees⟩) : ∀ path ∈ board :: trees, path ≠ "" := by
  obtain ⟨given, hspells, hboard, rfl⟩ := exists_spells_of_parse h
  have hne {option : ProgramOption} {path : String} (hoption : option ≠ .logLevel)
      (hpath : path ∈ valuesOf option given) : path ≠ "" := by
    have htakes := hspells.takes _ (mem_valuesOf.mp hpath)
    rintro rfl
    simp [ProgramOption.takes, hoption] at htakes
  intro path hpath
  rcases List.mem_cons.mp hpath with rfl | hpath
  · exact hne (by decide) (hboard ▸ List.mem_singleton_self path)
  · exact hne (by decide) hpath

end Request

end Ladybug
