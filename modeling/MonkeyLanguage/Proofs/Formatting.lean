-- SUMMARY: What a format is cut into, and what its expansion and printing are made of.
import Mathlib.Data.List.Basic
import MonkeyLanguage.Proofs.Run.Contents

/-!
# Formats and their expansion

There is exactly one way to cut a format into items from left to right, and counting arguments and
putting them in both go by these items. So a format has an expansion exactly if there are as many
arguments as verbs, and then each verb gets one argument and none is left over. What is put in
stays as it is, whatever it looks like.
-/

namespace MonkeyLanguage

namespace Format

/-! ## Verbs and items -/

/-- The verbs of formats. -/
inductive Verb where
  | string
  | decimal
  | value
  | truth
  | quoted
  deriving DecidableEq

namespace Verb

/-- The letter behind the percent sign. -/
def letter : Verb → Char
  | string => 's'
  | decimal => 'd'
  | value => 'v'
  | truth => 't'
  | quoted => 'q'

/-- What a verb puts in for its argument. -/
def insert : Verb → String → String
  | quoted, argument => "\"" ++ argument ++ "\""
  | _, argument => argument

end Verb

/-- A stretch of a format that is read as one. -/
inductive Item where
  | plain (c : Char)
  /-- Two percent signs. -/
  | percent
  /-- A verb, where an argument is put in. -/
  | place (verb : Verb)

namespace Item

/-- What an item is to the expansion. -/
def piece : Item → Piece
  | plain c => .literal c
  | percent => .literal '%'
  | place verb => .verb (verb = .quoted)

def isPlace : Item → Bool
  | place _ => true
  | _ => false

end Item

/-- How many arguments the items ask for. -/
def places (items : List Item) : Nat :=
  items.countP Item.isPlace

@[simp] theorem places_plain (c : Char) (items : List Item) :
    places (.plain c :: items) = places items := rfl

@[simp] theorem places_percent (items : List Item) :
    places (.percent :: items) = places items := rfl

@[simp] theorem places_place (verb : Verb) (items : List Item) :
    places (.place verb :: items) = places items + 1 :=
  List.countP_cons_of_pos rfl

/-- The item that a percent sign makes with the character behind it. -/
def Item.behindPercent? : Char → Option Item
  | '%' => some .percent
  | 's' => some (.place .string)
  | 'd' => some (.place .decimal)
  | 'v' => some (.place .value)
  | 't' => some (.place .truth)
  | 'q' => some (.place .quoted)
  | _ => none

/-- The format is cut into the items from left to right: a percent sign is plain only if it makes
no item with the character behind it. -/
inductive Cut : List Char → List Item → Prop where
  | empty : Cut [] []
  | plain {c : Char} {rest : List Char} {items : List Item} :
      (c = '%' → ∀ next ∈ rest.head?, Item.behindPercent? next = none) → Cut rest items →
      Cut (c :: rest) (.plain c :: items)
  | escape {c : Char} {item : Item} {rest : List Char} {items : List Item} :
      Item.behindPercent? c = some item → Cut rest items →
      Cut ('%' :: c :: rest) (item :: items)

/-- The items expand to the text. Each verb takes the next argument: there is one for every verb,
and none is left at the end. -/
inductive Expands : List Item → List String → List Char → Prop where
  | empty : Expands [] [] []
  | plain (c : Char) {items : List Item} {arguments : List String} {text : List Char} :
      Expands items arguments text → Expands (.plain c :: items) arguments (c :: text)
  | percent {items : List Item} {arguments : List String} {text : List Char} :
      Expands items arguments text → Expands (.percent :: items) arguments ('%' :: text)
  | place (verb : Verb) (argument : String) {items : List Item} {arguments : List String}
      {text : List Char} :
      Expands items arguments text →
      Expands (.place verb :: items) (argument :: arguments) ((verb.insert argument).toList ++ text)

/-! ## Cutting -/

theorem Item.behindPercent?_letter (verb : Verb) :
    behindPercent? verb.letter = some (.place verb) := by
  cases verb <;> rfl

theorem escape?_eq (c : Char) : escape? c = (Item.behindPercent? c).map Item.piece := by
  unfold escape? Item.behindPercent?
  split <;> simp_all [Item.piece]

theorem pieces_escape {c : Char} {item : Item} (h : Item.behindPercent? c = some item)
    (rest : List Char) : pieces ('%' :: c :: rest) = item.piece :: pieces rest := by
  rw [pieces, escape?_eq, h, Option.map_some]

theorem pieces_plain {c : Char} {rest : List Char}
    (h : c = '%' → ∀ next ∈ rest.head?, Item.behindPercent? next = none) :
    pieces (c :: rest) = .literal c :: pieces rest := by
  by_cases hc : c = '%'
  · subst hc
    cases rest with
    | nil => rfl
    | cons next rest => rw [pieces, escape?_eq, h rfl next rfl, Option.map_none]
  · rw [pieces]
    exact fun _ _ hpercent _ => hc hpercent

/-- The parts of a format are what its items are to the expansion. -/
theorem Cut.pieces_eq {format : List Char} {items : List Item} (h : Cut format items) :
    pieces format = items.map Item.piece := by
  induction h with
  | empty => rfl
  | plain hplain _ ih => rw [pieces_plain hplain, ih, List.map_cons, Item.piece]
  | escape hitem _ ih => rw [pieces_escape hitem, ih, List.map_cons]

theorem exists_cut (format : List Char) : ∃ items, Cut format items := by
  -- The recursion of `pieces` goes behind the character that makes an item with a percent sign.
  induction format using pieces.induct with
  | case1 => exact ⟨[], .empty⟩
  | case2 c rest piece hpiece ih =>
      obtain ⟨items, hcut⟩ := ih
      rw [escape?_eq] at hpiece
      obtain ⟨item, hitem, -⟩ := Option.map_eq_some_iff.1 hpiece
      exact ⟨_, .escape hitem hcut⟩
  | case3 c rest hnone ih =>
      obtain ⟨items, hcut⟩ := ih
      rw [escape?_eq, Option.map_eq_none_iff] at hnone
      refine ⟨_, .plain (fun _ next hnext => ?_) hcut⟩
      obtain rfl := Option.some.inj hnext
      exact hnone
  | case4 c rest hplain ih =>
      obtain ⟨items, hcut⟩ := ih
      refine ⟨_, .plain (fun hpercent next hnext => ?_) hcut⟩
      obtain ⟨others, rfl⟩ := List.head?_eq_some_iff.1 hnext
      exact (hplain next others hpercent rfl).elim

/-- There is only one way to cut a format. -/
theorem Cut.unique {format : List Char} {items others : List Item} (h : Cut format items)
    (hothers : Cut format others) : items = others := by
  induction h generalizing others with
  | empty =>
      cases hothers
      rfl
  | plain hplain _ ih =>
      cases hothers with
      | plain _ hrest => rw [ih hrest]
      | escape hitem =>
          rw [hplain rfl _ rfl] at hitem
          cases hitem
  | escape hitem _ ih =>
      cases hothers with
      | plain hplain =>
          rw [hplain rfl _ rfl] at hitem
          cases hitem
      | escape hother hrest =>
          rw [hother] at hitem
          rw [Option.some.inj hitem, ih hrest]

/-! ## Expansion -/

theorem wanted_map_piece (items : List Item) : wanted (items.map Item.piece) = places items := by
  induction items with
  | nil => rfl
  | cons item items ih => cases item <;> simp [wanted, Item.piece, ih]

theorem Cut.argumentCount_eq {format : String} {items : List Item} (h : Cut format.toList items) :
    argumentCount format = places items := by
  rw [argumentCount, h.pieces_eq, wanted_map_piece]

theorem fill_place (verb : Verb) (rest : List Piece) (argument : String) (arguments : List String) :
    fill ((Item.place verb).piece :: rest) (argument :: arguments) =
      (fill rest arguments).map ((verb.insert argument).toList ++ ·) := by
  cases verb <;> simp [Item.piece, Verb.insert, fill]

/-- Filling in the arguments comes to what the items expand to. -/
theorem Expands.fill_eq {items : List Item} {arguments : List String} {text : List Char}
    (h : Expands items arguments text) : fill (items.map Item.piece) arguments = some text := by
  induction h with
  | empty => rfl
  | plain c _ ih => rw [List.map_cons, Item.piece, fill, ih, Option.map_some]
  | percent _ ih => rw [List.map_cons, Item.piece, fill, ih, Option.map_some]
  | place verb argument _ ih => rw [List.map_cons, fill_place, ih, Option.map_some]

theorem Expands.places_eq {items : List Item} {arguments : List String} {text : List Char}
    (h : Expands items arguments text) : places items = arguments.length := by
  induction h with
  | empty => rfl
  | plain _ _ ih => exact ih
  | percent _ ih => exact ih
  | place _ _ _ ih => simpa using ih

/-- With as many arguments as verbs, the arguments do not run out, and none is left over. -/
theorem exists_expands {items : List Item} {arguments : List String}
    (h : places items = arguments.length) : ∃ text, Expands items arguments text := by
  induction items generalizing arguments with
  | nil =>
      obtain rfl := List.length_eq_zero_iff.1 h.symm
      exact ⟨[], .empty⟩
  | cons item items ih =>
      cases item with
      | plain c =>
          obtain ⟨text, htext⟩ := ih h
          exact ⟨_, .plain c htext⟩
      | percent =>
          obtain ⟨text, htext⟩ := ih h
          exact ⟨_, .percent htext⟩
      | place verb =>
          cases arguments with
          | nil => simp at h
          | cons argument arguments =>
              obtain ⟨text, htext⟩ := ih (by simpa using h)
              exact ⟨_, .place verb argument htext⟩

theorem Cut.expand?_eq {format : String} {items : List Item} (h : Cut format.toList items)
    (arguments : List String) :
    expand? format arguments =
      if places items = arguments.length then
        (fill (pieces format.toList) arguments).map String.ofList
      else none := by
  simp only [expand?, h.pieces_eq, wanted_map_piece]

theorem Cut.fill_of_expands {format : String} {items : List Item} (h : Cut format.toList items)
    {arguments : List String} {text : List Char} (hexpands : Expands items arguments text) :
    fill (pieces format.toList) arguments = some text := by
  rw [h.pieces_eq, hexpands.fill_eq]

/-- What the items expand to is the expansion of the format. -/
theorem Cut.expand?_of_expands {format : String} {items : List Item} (h : Cut format.toList items)
    {arguments : List String} {text : String} (hexpands : Expands items arguments text.toList) :
    expand? format arguments = some text := by
  rw [h.expand?_eq, if_pos hexpands.places_eq, h.fill_of_expands hexpands, Option.map_some,
    String.ofList_toList]

/-- With as many arguments as verbs, all of them are put in, and they do not run out. -/
theorem Cut.exists_expansion {format : String} {items : List Item} (h : Cut format.toList items)
    {arguments : List String} (hcount : places items = arguments.length) :
    ∃ text : String, Expands items arguments text.toList ∧
      fill (pieces format.toList) arguments = some text.toList ∧
        expand? format arguments = some text := by
  obtain ⟨filled, hfilled⟩ := exists_expands hcount
  have hexpands : Expands items arguments (String.ofList filled).toList := by
    rwa [String.toList_ofList]
  exact ⟨_, hexpands, h.fill_of_expands hexpands, h.expand?_of_expands hexpands⟩

/-- A format has an expansion exactly if there are as many arguments as verbs. -/
theorem Cut.expand?_eq_none_iff {format : String} {items : List Item} (h : Cut format.toList items)
    (arguments : List String) :
    expand? format arguments = none ↔ places items ≠ arguments.length := by
  constructor
  · intro hnone hcount
    obtain ⟨text, -, -, htext⟩ := h.exists_expansion hcount
    rw [hnone] at htext
    cases htext
  · intro hcount
    rw [h.expand?_eq, if_neg hcount]

/-! ## Formats that are made of texts and verbs -/

/-- A verb with the argument that is meant for it, and the text behind it. -/
structure Insertion where
  verb : Verb
  argument : String
  behind : String

/-- A text with each percent sign doubled. -/
def escaped (text : String) : String :=
  String.ofList (text.toList.flatMap fun c => if c = '%' then ['%', '%'] else [c])

/-- The format that is made of a text, and of verbs with texts behind them. -/
def written (first : String) (insertions : List Insertion) : String :=
  escaped first ++ String.join (insertions.map fun insertion =>
    String.ofList ['%', insertion.verb.letter] ++ escaped insertion.behind)

/-- The texts with the arguments between them. -/
def completed (first : String) (insertions : List Insertion) : String :=
  first ++ String.join (insertions.map fun insertion =>
    insertion.verb.insert insertion.argument ++ insertion.behind)

/-- The items of a text with each percent sign doubled. -/
def escapedItems (text : List Char) : List Item :=
  text.map fun c => if c = '%' then .percent else .plain c

theorem Cut.escaped {rest : List Char} {items : List Item} (h : Cut rest items) (text : String) :
    Cut ((Format.escaped text).toList ++ rest) (escapedItems text.toList ++ items) := by
  rw [Format.escaped, String.toList_ofList]
  induction text.toList with
  | nil => exact h
  | cons c text ih =>
      by_cases hc : c = '%'
      · subst hc
        exact .escape rfl ih
      · simpa [escapedItems, hc] using Cut.plain (fun hpercent => absurd hpercent hc) ih

theorem Expands.escaped {items : List Item} {arguments : List String} {text : List Char}
    (h : Expands items arguments text) (before : List Char) :
    Expands (escapedItems before ++ items) arguments (before ++ text) := by
  induction before with
  | nil => exact h
  | cons c before ih =>
      by_cases hc : c = '%'
      · subst hc
        exact .percent ih
      · simpa [escapedItems, hc] using Expands.plain c ih

/-- The items of verbs with texts behind them. -/
def insertionItems (insertions : List Insertion) : List Item :=
  insertions.flatMap fun insertion =>
    .place insertion.verb :: escapedItems insertion.behind.toList

theorem cut_written (first : String) (insertions : List Insertion) :
    Cut (written first insertions).toList
      (escapedItems first.toList ++ insertionItems insertions) := by
  rw [written, String.toList_append]
  refine Cut.escaped ?_ first
  induction insertions with
  | nil => exact .empty
  | cons insertion rest ih =>
      have hplace := Cut.escape (Item.behindPercent?_letter insertion.verb)
        (ih.escaped insertion.behind)
      simpa [insertionItems, String.join_cons] using hplace

theorem expands_completed (first : String) (insertions : List Insertion) :
    Expands (escapedItems first.toList ++ insertionItems insertions)
      (insertions.map Insertion.argument) (completed first insertions).toList := by
  rw [completed, String.toList_append]
  refine Expands.escaped ?_ first.toList
  induction insertions with
  | nil => exact .empty
  | cons insertion rest ih =>
      have hplace := Expands.place insertion.verb insertion.argument
        (ih.escaped insertion.behind.toList)
      simpa [insertionItems, String.join_cons] using hplace

/-! ## Printing -/

/-- A call of `printf` writes the expansion of its format, in one piece. Without an expansion it
answers with an error. Apart from the console and the log, it changes nothing. -/
theorem call_printFormatted (settings : Settings) (machine : Machine) (format : Value)
    (arguments : List Value) :
    settings.call (.builtin .printFormatted) (format :: arguments) machine =
      let traced := machine.trace settings.traceLevel
        (.calledBuiltin .printFormatted (arguments.length + 1))
      match expand? format.inspect (arguments.map Value.inspect) with
      | some text => .ok .null { traced with console := machine.console.write text }
      | none =>
          .ok (.error (.wrongFormatCount arguments.length (argumentCount format.inspect)))
            traced := by
  have hcall : settings.call (.builtin .printFormatted) (format :: arguments) machine =
      Eval.callBuiltin settings.toHost .printFormatted (format :: arguments) machine := by
    rw [Settings.call]
    cases settings.depth <;> rfl
  have hbuiltin :
      Eval.callBuiltin settings.toHost .printFormatted (format :: arguments) machine =
      let traced := machine.trace settings.traceLevel
        (.calledBuiltin .printFormatted (arguments.length + 1))
      let result := Builtin.runPrintFormatted traced.console (format :: arguments)
      .ok result.1 { traced with console := result.2 } := rfl
  rw [hcall, hbuiltin]
  simp only [Builtin.runPrintFormatted, Console.printFormatted?]
  cases expand? format.inspect (arguments.map Value.inspect) with
  | some text =>
      simp only [Option.map_some]
      rw [Moment.console_trace]
  | none => rfl

/-- Expansion is exact. Texts with their percent signs doubled and verbs between them expand to the
texts with the arguments between them, whatever the arguments look like. Every format is cut into
items in exactly one way, and it has an expansion exactly if there are as many arguments as verbs
among the items. Then each verb takes one argument, the arguments do not run out, and `printf`
writes the whole expansion; if not, `printf` writes nothing and answers with an error. -/
theorem expansion_exact :
    (∀ (first : String) (insertions : List Insertion),
      argumentCount (written first insertions) = insertions.length ∧
        expand? (written first insertions) (insertions.map Insertion.argument) =
          some (completed first insertions)) ∧
    (∀ format : List Char, ∃! items, Cut format items) ∧
    (∀ (format : String) (items : List Item), Cut format.toList items →
      argumentCount format = places items ∧
        ∀ arguments : List String,
          (expand? format arguments = none ↔ places items ≠ arguments.length) ∧
            (places items = arguments.length →
              ∃ text : String, Expands items arguments text.toList ∧
                fill (pieces format.toList) arguments = some text.toList ∧
                  expand? format arguments = some text)) ∧
    ∀ (settings : Settings) (machine : Machine) (format : Value) (arguments : List Value)
      (items : List Item), Cut format.inspect.toList items →
        let traced := machine.trace settings.traceLevel
          (.calledBuiltin .printFormatted (arguments.length + 1))
        (places items ≠ arguments.length →
          settings.call (.builtin .printFormatted) (format :: arguments) machine =
            .ok (.error (.wrongFormatCount arguments.length (places items))) traced) ∧
        (places items = arguments.length →
          ∃ text : String, Expands items (arguments.map Value.inspect) text.toList ∧
            settings.call (.builtin .printFormatted) (format :: arguments) machine =
              .ok .null { traced with console := machine.console.write text }) := by
  refine ⟨fun first insertions => ?_, fun format => ?_, fun format items hcut => ?_,
    fun settings machine format arguments items hcut => ?_⟩
  · have hexpands := expands_completed first insertions
    have hcut := cut_written first insertions
    refine ⟨?_, hcut.expand?_of_expands hexpands⟩
    rw [hcut.argumentCount_eq, hexpands.places_eq, List.length_map]
  · obtain ⟨items, hcut⟩ := exists_cut format
    exact ⟨items, hcut, fun others hothers => hothers.unique hcut⟩
  · exact ⟨hcut.argumentCount_eq, fun arguments =>
      ⟨hcut.expand?_eq_none_iff arguments, hcut.exists_expansion⟩⟩
  · rw [call_printFormatted]
    refine ⟨fun hcount => ?_, fun hcount => ?_⟩
    · have hnone : expand? format.inspect (arguments.map Value.inspect) = none :=
        (hcut.expand?_eq_none_iff _).2 (by rwa [List.length_map])
      rw [hnone, hcut.argumentCount_eq]
    · have hsame : places items = (arguments.map Value.inspect).length := by
        rwa [List.length_map]
      obtain ⟨text, hexpands, -, htext⟩ := hcut.exists_expansion hsame
      exact ⟨text, hexpands, by rw [htext]⟩

/-- A format with a verb, two percent signs, and one more at its end. -/
theorem expansion_exact_lastPercent :
    let items := [Item.place .quoted, .percent, .plain '%']
    Cut "%q%%%".toList items ∧
      (places items = ["%s"].length ∧ ∃ text : String, Expands items ["%s"] text.toList ∧
        fill (pieces "%q%%%".toList) ["%s"] = some text.toList ∧
          expand? "%q%%%" ["%s"] = some text) ∧
      places items ≠ ([] : List Value).length ∧
        Settings.call {} (.builtin .printFormatted) [.string "%q%%%"] .initial =
          .ok (.error (.wrongFormatCount 0 1)) .initial := by
  intro items
  have hcut : Cut "%q%%%".toList items := .escape rfl (.escape rfl (.plain nofun .empty))
  have hcount : places items ≠ ([] : List Value).length := by decide
  have hprint := (expansion_exact.2.2.2 {} .initial (.string "%q%%%") [] items hcut).1 hcount
  exact ⟨hcut, ⟨rfl, ((expansion_exact.2.2.1 _ items hcut).2 ["%s"]).2 rfl⟩, hcount, hprint⟩

end Format

end MonkeyLanguage
