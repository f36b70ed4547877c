import DecafTac.Compile
import DecafTac.Proofs.Lower.Jumps
import DecafTac.Proofs.Storage.TopLevel

/-!
Closed output. In what is issued for a program without reports, every function that is called or listed in
a method table is there once, and every table that is named is there once. What is referred to comes from
the layouts and what is defined from the order of the program; the two agree because names mean one thing
each and what lies above a top-level class is top-level.
-/
namespace DecafTac

open Emitter (labelName)

/-! ## What a listing defines -/

/-- The labels at which functions start: those right before the opening of a frame. -/
def entries : List Instruction → List String
  | .label label :: .beginFunc :: rest => label :: entries rest
  | _ :: rest => entries rest
  | [] => []

/-- The class that an instruction issues the method table of. -/
def Instruction.tableOf? : Instruction → Option String
  | .methodTable cls _ => some cls
  | _ => none

/-- Whether an instruction opens or closes the frame of a function. -/
def Instruction.opensOrCloses : Instruction → Bool
  | .beginFunc | .endFunc _ => true
  | _ => false

/-- The classes whose method tables are issued, in order. -/
def tableNames (code : List Instruction) : List String := code.filterMap Instruction.tableOf?

/-- A label that is placed once, where a function starts. -/
structure Defined (code : List Instruction) (label : String) : Prop where
  once : (labels code).count label = 1
  opens : ∃ before rest, code = before ++ .label label :: .beginFunc :: rest

/-- All that a listing refers to is there once, and functions start at labels of their own. -/
structure Closed (code : List Instruction) : Prop where
  methods : ∀ cls listed, .methodTable cls listed ∈ code → ∀ label ∈ listed, Defined code label
  calls : ∀ label dst, .callLabel label dst ∈ code → Defined code label
  tables : ∀ dst name, .loadLabel dst name ∈ code → (tableNames code).count name = 1
  distinct : (entries code).Nodup
  apart : ∀ label ∈ entries code, ∀ n, label ≠ labelName n

/-- The class whose table a part is. -/
def Heading.table? : Heading → Option String
  | .function _ => none
  | .table cls _ => some cls

section Parts

variable {refs : References} {n m : Nat} {parts : List Part}

/-- A label that no frame is opened behind is passed over. -/
private theorem entries_cons {i : Instruction} {rest : List Instruction}
    (closed : rest.head? ≠ some .beginFunc) : entries (i :: rest) = entries rest := by
  rw [entries]
  rintro _ _ - rfl
  exact closed rfl

/-- No function starts in the body of a function. -/
private theorem entries_body {body : List Instruction} (plain : ∀ i ∈ body, i.isBracket = false)
    (size : Int) (rest : List Instruction) : entries (body ++ .endFunc size :: rest) = entries rest := by
  induction body with
  | nil => rfl
  | cons i body ih =>
    rw [List.forall_mem_cons] at plain
    refine (entries_cons ?_).trans (ih plain.2)
    cases body with
    | nil => simp
    | cons j body =>
      intro same
      have bracket := plain.2 j List.mem_cons_self
      rw [Option.some.inj same] at bracket
      cases bracket

/-- Functions start where the parts for them do. -/
theorem Assembled.entries_eq (assembled : Assembled refs n parts m) :
    entries (parts.flatMap Part.code) = (parts.map Part.heading).filterMap Heading.label? := by
  induction assembled with
  | nil => rfl
  | @segment _ _ _ body parts label size formed _ ih =>
    have flat : (Part.segment label body size :: parts).flatMap Part.code =
        .label label :: .beginFunc :: (body ++ .endFunc size :: parts.flatMap Part.code) := by
      simp [Part.code]
    rw [flat, entries, entries_body formed.unbracketed, ih]
    rfl
  | table _ _ _ ih => exact ih

/-- Tables are issued where the parts for them are. -/
theorem Assembled.tableNames_eq (assembled : Assembled refs n parts m) :
    tableNames (parts.flatMap Part.code) = (parts.map Part.heading).filterMap Heading.table? := by
  induction assembled with
  | nil => rfl
  | @segment _ _ _ body parts label size formed _ ih =>
    have none : body.filterMap Instruction.tableOf? = [] := by
      rw [List.filterMap_eq_nil_iff]
      intro i member
      cases formed.allowed i member with
      | plain isPlain => cases i <;> first | rfl | cases isPlain
      | call isCall => cases i <;> first | rfl | cases isCall
      | table | push | pop | label | jump | jumpIfZero => rfl
    have issued : tableNames (body ++ [.endFunc size]) = [] := by
      rw [tableNames, List.filterMap_append, none]
      rfl
    rw [List.flatMap_cons, tableNames, List.filterMap_append]
    exact congrArg₂ (· ++ ·) issued ih
  | @table _ _ parts cls listed _ ih =>
    exact congrArg (cls :: ·) ih

/-- What stands in a listing. -/
theorem Assembled.listed (assembled : Assembled refs n parts m) :
    ∀ i ∈ parts.flatMap Part.code, i.label?.isSome ∨ i.opensOrCloses = true ∨ Formed.Allowed refs i ∨
      ∃ cls methods, i = .methodTable cls methods ∧ .table cls methods ∈ parts.map Part.heading := by
  induction assembled with
  | nil => simp
  | @segment _ _ _ body parts label size formed _ ih =>
    intro i member
    rw [List.flatMap_cons] at member
    rcases List.mem_append.mp member with inside | later
    · simp only [Part.code, List.mem_cons, List.mem_append, List.not_mem_nil, or_false] at inside
      rcases inside with rfl | rfl | inside | rfl
      · exact .inl rfl
      · exact .inr (.inl rfl)
      · exact .inr (.inr (.inl (formed.allowed i inside)))
      · exact .inr (.inl rfl)
    · refine (ih i later).imp_right (Or.imp_right (Or.imp_right ?_))
      rintro ⟨cls, methods, same, among⟩
      exact ⟨cls, methods, same, List.mem_cons_of_mem _ among⟩
  | @table _ _ parts cls methods _ ih =>
    intro i member
    rw [List.flatMap_cons] at member
    rcases List.mem_append.mp member with inside | later
    · rw [List.mem_singleton.mp inside]
      exact .inr (.inr (.inr ⟨cls, methods, rfl, List.mem_cons_self⟩))
    · refine (ih i later).imp_right (Or.imp_right (Or.imp_right ?_))
      rintro ⟨cls, methods, same, among⟩
      exact ⟨cls, methods, same, List.mem_cons_of_mem _ among⟩

/-- A part for a function starts with its label and the opening of its frame. -/
theorem Part.opens {label : String} (listed : label ∈ (parts.map Part.heading).filterMap Heading.label?) :
    ∃ before rest, parts.flatMap Part.code = before ++ .label label :: .beginFunc :: rest := by
  obtain ⟨heading, among, same⟩ := List.mem_filterMap.mp listed
  obtain ⟨part, member, rfl⟩ := List.mem_map.mp among
  obtain ⟨first, second, rfl⟩ := List.append_of_mem member
  cases part with
  | segment label body size =>
    cases same
    exact ⟨first.flatMap Part.code, body ++ [.endFunc size] ++ second.flatMap Part.code, by
      simp [Part.code]⟩
  | table => cases same

end Parts

/-! ## Names of functions -/

/-- The label of a method tells its class, when the name of that has no dot in it. -/
theorem methodLabel_class {cls other method method' : String} (plain : '.' ∉ cls.toList)
    (plain' : '.' ∉ other.toList)
    (same : ClassLayout.methodLabel cls method = ClassLayout.methodLabel other method') :
    cls = other := by
  have lists : cls.toList ++ '.' :: method.toList = other.toList ++ '.' :: method'.toList := by
    have all := congrArg String.toList same
    simpa [ClassLayout.methodLabel, String.toList_append] using all
  have cut {front back : List Char} (free : '.' ∉ front) :
      (front ++ '.' :: back).takeWhile (· != '.') = front := by
    rw [List.takeWhile_append_of_pos, List.takeWhile_cons_of_neg, List.append_nil]
    · simp
    · intro c member
      have other : c ≠ '.' := fun same => free (same ▸ member)
      simpa using other
  have front := congrArg (List.takeWhile (· != '.')) lists
  rw [cut plain, cut plain'] at front
  exact String.toList_inj.mp front

theorem methodLabel_injective (cls : String) : Function.Injective (ClassLayout.methodLabel cls) := by
  intro method other same
  have lists := congrArg String.toList same
  simp only [ClassLayout.methodLabel, String.toList_append, List.append_cancel_left_eq] at lists
  exact String.toList_inj.mp lists

theorem head_methodLabel (cls method : String) :
    (ClassLayout.methodLabel cls method).toList.head? = some '_' := by
  simp [ClassLayout.methodLabel, String.toList_append]

namespace Decl

/-- The labels of the functions that a top-level declaration gives. -/
def entryLabels : Decl → List String
  | .cls _ name _ _ members =>
    (members.filter isFunction).map fun member => ClassLayout.methodLabel name.name member.name
  | decl => if decl.isFunction then [decl.name] else []

/-- A name that is neither that of a label nor that of a method. -/
def HasPlainName (d : Decl) : Prop := '.' ∉ d.name.toList ∧ d.name.toList.head? ≠ some '_'

theorem entryLabels_cases {d : Decl} {label : String} (listed : label ∈ d.entryLabels) :
    (d.isFunction = true ∧ label = d.name) ∨
      ∃ method, label = ClassLayout.methodLabel d.name method := by
  unfold entryLabels at listed
  split at listed
  · obtain ⟨member, -, rfl⟩ := List.mem_map.mp listed
    exact .inr ⟨member.name, rfl⟩
  · split at listed
    · rename_i isFunction
      exact .inl ⟨isFunction, List.mem_singleton.mp listed⟩
    · cases listed

/-- Declarations of different plain names give functions of different labels. -/
theorem entryLabels_disjoint {d e : Decl} (plain : d.HasPlainName) (plain' : e.HasPlainName)
    (other : d.name ≠ e.name) : List.Disjoint d.entryLabels e.entryLabels := by
  intro label first second
  rcases entryLabels_cases first with ⟨-, rfl⟩ | ⟨method, rfl⟩
  · rcases entryLabels_cases second with ⟨-, same⟩ | ⟨method, same⟩
    · exact other same
    · exact plain.2 (same ▸ head_methodLabel ..)
  · rcases entryLabels_cases second with ⟨-, same⟩ | ⟨method', same⟩
    · exact plain'.2 (same ▸ head_methodLabel ..)
    · exact other (methodLabel_class plain.1 plain'.1 same)

theorem entryLabels_ne_labelName {d : Decl} (plain : d.HasPlainName) {label : String}
    (listed : label ∈ d.entryLabels) (n : Nat) : label ≠ labelName n := by
  rcases entryLabels_cases listed with ⟨-, rfl⟩ | ⟨method, rfl⟩
  · intro same
    exact plain.2 (same ▸ head_labelName n)
  · exact methodLabel_ne_labelName _ _ n

end Decl

/-! ## Whole programs -/

namespace Program.Resolved

variable {program : Program} {layouts : Layouts}

private theorem functionHeadings_labels (layout : Option ClassLayout) (decl : Decl) :
    (Lower.functionHeadings layout decl).filterMap Heading.label? =
      if decl.isFunction then [Lower.functionLabel layout decl.name] else [] := by
  unfold Lower.functionHeadings
  split <;> rfl

private theorem functionHeadings_tables (layout : Option ClassLayout) (decl : Decl) :
    (Lower.functionHeadings layout decl).filterMap Heading.table? = [] := by
  unfold Lower.functionHeadings
  split <;> rfl

/-- The headings of a class are its methods, under its own name, and its table. -/
theorem headings_class (resolved : program.Resolved layouts) {id : DeclId} {name : Ident}
    {superclass : Option Ident} {interfaces : List Ident} {members : List Decl}
    (top : .cls id name superclass interfaces members ∈ program.top) :
    ∃ layout, layout.name = name.name ∧ (∀ label ∈ layout.table, program.DeclaresLabel label) ∧
      Lower.headings layouts (.cls id name superclass interfaces members) =
        members.flatMap (Lower.functionHeadings (some layout)) ++ [.table layout.name layout.table] := by
  obtain ⟨layout, found, declared⟩ := resolved.found _ top rfl
  refine ⟨layout, Layouts.name_of_class? found, declared, ?_⟩
  have found' : layouts.class? name.name = some layout := found
  rw [Lower.headings, found']

/-- The functions of a program, by label. -/
theorem entryLabels_eq (resolved : program.Resolved layouts) :
    program.entryLabels layouts = program.top.flatMap Decl.entryLabels := by
  rw [Program.entryLabels, Program.headings, List.filterMap_flatMap]
  refine List.flatMap_congr fun d top => ?_
  cases d with
  | cls id name superclass interfaces members =>
    obtain ⟨layout, named, -, heads⟩ := resolved.headings_class top
    rw [heads, List.filterMap_append, List.filterMap_flatMap,
      funext (functionHeadings_labels (some layout)), flatMap_if, Decl.entryLabels, ← named]
    exact List.append_nil _
  | var | interface | prototype | function => exact functionHeadings_labels none _

/-- The tables of a program, by class. -/
theorem tables_eq (resolved : program.Resolved layouts) :
    (program.headings layouts).filterMap Heading.table? =
      (program.top.filter Decl.isClass).map Decl.name := by
  rw [← flatMap_if, Program.headings, List.filterMap_flatMap]
  refine List.flatMap_congr fun d top => ?_
  cases d with
  | cls id name superclass interfaces members =>
    obtain ⟨layout, named, -, heads⟩ := resolved.headings_class top
    have none : (members.flatMap (Lower.functionHeadings (some layout))).filterMap Heading.table? =
        [] := by
      rw [List.filterMap_flatMap, List.flatMap_eq_nil_iff]
      exact fun member _ => functionHeadings_tables (some layout) member
    rw [heads, List.filterMap_append, none, named]
    rfl
  | var | interface | prototype | function => exact functionHeadings_tables none _

/-- Functions have labels of their own. -/
theorem entryLabels_nodup (resolved : program.Resolved layouts)
    (plain : ∀ d ∈ program.top, d.HasPlainName) : (program.entryLabels layouts).Nodup := by
  rw [resolved.entryLabels_eq, List.nodup_flatMap]
  constructor
  · intro d top
    unfold Decl.entryLabels
    split
    · rename_i id name superclass interfaces members
      have names := resolved.members id name superclass interfaces members top
      have functions : ((members.filter Decl.isFunction).map Decl.name).Nodup :=
        names.sublist (List.filter_sublist.map _)
      have labelled := functions.map (methodLabel_injective name.name)
      rwa [List.map_map] at labelled
    · split
      · exact List.nodup_singleton _
      · exact List.nodup_nil
  · have apart : program.top.Pairwise fun d e => d.name ≠ e.name := List.pairwise_map.mp resolved.names
    refine apart.imp_of_mem fun top top' other => ?_
    exact Decl.entryLabels_disjoint (plain _ top) (plain _ top') other

/-- The label of a method of a top-level class is that of a function that code is generated for. -/
theorem entry_of_declares (resolved : program.Resolved layouts) {label : String}
    (declares : program.DeclaresLabel label) : label ∈ program.entryLabels layouts := by
  obtain ⟨id, name, superclass, interfaces, members, top, member, among, isFunction, rfl⟩ := declares
  rw [resolved.entryLabels_eq]
  refine List.mem_flatMap.mpr ⟨_, top, List.mem_map.mpr ⟨member, ?_, rfl⟩⟩
  exact List.mem_filter.mpr ⟨among, isFunction⟩

/-- So is the label of a function that can be called. -/
theorem entry_of_function (resolved : program.Resolved layouts) {name : String} {entry : FunctionEntry}
    (known : layouts.functions.function? name = some entry) :
    entry.label ∈ program.entryLabels layouts := by
  obtain ⟨label, d, top, isFunction, named⟩ := resolved.functions name entry known
  rw [resolved.entryLabels_eq, label, ← named]
  refine List.mem_flatMap.mpr ⟨d, top, ?_⟩
  cases d with
  | var | cls | interface => cases isFunction
  | prototype | function => exact List.mem_singleton.mpr rfl

/-- A table lists methods of top-level classes. -/
theorem listed_declared (resolved : program.Resolved layouts) {cls : String} {listed : List String}
    (heading : .table cls listed ∈ program.headings layouts) :
    ∀ label ∈ listed, program.DeclaresLabel label := by
  have no_function (layout : Option ClassLayout) (decl : Decl) :
      .table cls listed ∉ Lower.functionHeadings layout decl := by
    intro member
    have none := functionHeadings_tables layout decl
    rw [List.filterMap_eq_nil_iff] at none
    cases none _ member
  obtain ⟨d, top, member⟩ := List.mem_flatMap.mp heading
  cases d with
  | cls id name superclass interfaces members =>
    obtain ⟨layout, -, declared, heads⟩ := resolved.headings_class top
    rw [heads] at member
    rcases List.mem_append.mp member with method | table
    · obtain ⟨method, -, member⟩ := List.mem_flatMap.mp method
      exact absurd member (no_function _ _)
    · cases List.mem_singleton.mp table
      exact declared
  | var | interface | prototype | function => exact absurd member (no_function _ _)

/-- The table of a class that is laid out is issued once. -/
theorem table_once (resolved : program.Resolved layouts) {cls : String} {layout : ClassLayout}
    (known : layouts.class? cls = some layout) :
    ((program.headings layouts).filterMap Heading.table?).count layout.name = 1 := by
  obtain ⟨d, top, isClass, rfl⟩ := resolved.only cls layout known
  have single : ((program.top.filter Decl.isClass).map Decl.name).Nodup :=
    resolved.names.sublist (List.filter_sublist.map _)
  rw [resolved.tables_eq, Layouts.name_of_class? known]
  exact List.count_eq_one_of_mem single (List.mem_map_of_mem (List.mem_filter.mpr ⟨top, isClass⟩))

end Program.Resolved

/-- What is generated for a resolved program is closed. -/
theorem Program.Resolved.closed {program : Program} {layouts : Layouts}
    (resolved : program.Resolved layouts) (plain : ∀ d ∈ program.top, d.HasPlainName)
    {shape : FrameShape} {summary : Summary}
    (succeeds : (program.generate layouts shape).outcome = .ok summary) :
    Closed (program.generate layouts shape).code := by
  obtain ⟨parts, taken, code, heads, assembled⟩ := Program.generate_parts succeeds
  have entered : entries (parts.flatMap Part.code) = program.entryLabels layouts := by
    rw [assembled.entries_eq, heads]
    rfl
  have single := resolved.entryLabels_nodup plain
  have apart : ∀ label ∈ program.entryLabels layouts, ∀ n, label ≠ labelName n := by
    intro label listed n
    rw [resolved.entryLabels_eq] at listed
    obtain ⟨d, top, listed⟩ := List.mem_flatMap.mp listed
    exact Decl.entryLabels_ne_labelName (plain d top) listed n
  have defined : ∀ label ∈ program.entryLabels layouts, Defined (parts.flatMap Part.code) label := by
    intro label listed
    constructor
    · have untaken : label ∉ Formed.labelsBetween 0 taken := by
        intro member
        obtain ⟨n, -, same⟩ := List.mem_map.mp member
        exact apart label listed n same.symm
      have placed : (labels (parts.flatMap Part.code)).Perm
          (program.entryLabels layouts ++ Formed.labelsBetween 0 taken) := by
        have all := assembled.labels_perm
        rw [heads] at all
        exact all
      rw [placed.count_eq, List.count_append, List.count_eq_one_of_mem single listed,
        List.count_eq_zero.mpr untaken]
    · refine Part.opens ?_
      rw [heads]
      exact listed
  rw [code]
  constructor
  · intro cls listed among label member
    rcases assembled.listed _ among with marked | bracket | allowed | ⟨_, _, same, heading⟩
    · cases marked
    · cases bracket
    · cases allowed with
      | plain isPlain => cases isPlain
      | call isCall => cases isCall
    · cases same
      rw [heads] at heading
      exact defined label (resolved.entry_of_declares (resolved.listed_declared heading label member))
  · intro label dst among
    rcases assembled.listed _ among with marked | bracket | allowed | ⟨_, _, same, -⟩
    · cases marked
    · cases bracket
    · cases allowed with
      | plain isPlain => cases isPlain
      | call isCall made =>
        obtain ⟨e, receiver, args, -, calling, -⟩ := made
        cases calling with
        | function dst evaluated known => exact defined _ (resolved.entry_of_function known)
    · cases same
  · intro dst name among
    rcases assembled.listed _ among with marked | bracket | allowed | ⟨_, _, same, -⟩
    · cases marked
    · cases bracket
    · cases allowed with
      | plain isPlain => cases isPlain
      | call isCall => cases isCall
      | table dst known =>
        obtain ⟨cls, layout, found, rfl⟩ := known
        rw [assembled.tableNames_eq, heads]
        exact resolved.table_once found
    · cases same
  · rw [entered]
    exact single
  · rw [entered]
    exact apart

/-- Compiling a program that may have no reports succeeds by analysing it without any and generating
code. -/
theorem Program.compile_ok {program : Program} {options : Options} {compiled : Compiled}
    {result : Summary × Diagnostics} (strict : options.emitOnErrors = false)
    (ran : program.compile options = .ok compiled) (succeeds : compiled.outcome = .ok result) :
    ∃ analysis, program.analyze options.shape = .ok analysis ∧ analysis.reports = [] ∧
      (program.generate analysis.layouts options.shape).outcome = .ok result.1 ∧
      compiled.code = (program.generate analysis.layouts options.shape).code := by
  obtain ⟨analysis, analyzed, ran⟩ := Arena.bind_ok ran
  rw [strict] at ran
  split at ran
  · cases ran
    cases succeeds
  · rename_i tolerated
    have clean : analysis.reports = [] := by simpa using tolerated
    dsimp only at ran
    split at ran
    · rename_i summary outcome
      cases ran
      cases succeeds
      exact ⟨analysis, analyzed, clean, outcome, rfl⟩
    · cases ran
      cases succeeds

/-- What a program without classes in classes is compiled to is closed, when names cannot be mistaken for
labels. -/
theorem Program.output_closed {program : Program} (built : program.Built) (flat : program.Flat)
    (plain : ∀ d ∈ program.top, d.HasPlainName) {options : Options}
    (strict : options.emitOnErrors = false) {compiled : Compiled} {result : Summary × Diagnostics}
    (ran : program.compile options = .ok compiled) (succeeds : compiled.outcome = .ok result) :
    Closed compiled.code := by
  obtain ⟨analysis, analyzed, clean, generated, code⟩ := Program.compile_ok strict ran succeeds
  rw [code]
  exact (Program.resolved_of_analyze built flat analyzed clean).closed plain generated

namespace Shapes

/-- A class below another, with an inherited method and one of its own, and a function that is called. -/
def steps : List Step :=
  [ .int 1 default, .ret (some ⟨0⟩) default, .block [] [⟨0⟩] default,
    .function ⟨"sides", default⟩ (.primitive .int) [] (some ⟨1⟩),
    .int 2 default, .ret (some ⟨1⟩) default, .block [] [⟨2⟩] default,
    .function ⟨"size", default⟩ (.primitive .int) [] (some ⟨3⟩),
    .cls ⟨"Shape", default⟩ none [] [⟨0⟩, ⟨1⟩],
    .int 4 default, .ret (some ⟨2⟩) default, .block [] [⟨4⟩] default,
    .function ⟨"sides", default⟩ (.primitive .int) [] (some ⟨5⟩),
    .cls ⟨"Square", default⟩ (some ⟨"Shape", default⟩) [] [⟨3⟩],
    .var ⟨"n", default⟩ (.primitive .int), .name ⟨"n", default⟩, .ret (some ⟨3⟩) default,
    .block [] [⟨6⟩] default, .function ⟨"area", default⟩ (.primitive .int) [⟨5⟩] (some ⟨7⟩),
    .new ⟨"Square", default⟩ default, .call (some ⟨4⟩) ⟨"size", default⟩ [] default,
    .call none ⟨"area", default⟩ [⟨5⟩] default, .print [⟨6⟩] default, .block [] [⟨8⟩] default,
    .function ⟨"main", default⟩ (.primitive .void) [] (some ⟨9⟩) ]

/-- A function with a number for its result and nothing else in its body. -/
def constant (decl : Nat) (name : String) (stmt expr : Nat) (value : Int) : Decl :=
  .function ⟨decl⟩ ⟨name, default⟩ (.primitive .int) []
    (.block ⟨⟨stmt + 1⟩, default⟩ [] [.ret ⟨⟨stmt⟩, default⟩ (some (.int ⟨⟨expr⟩, default⟩ value))])

def shape : Decl :=
  .cls ⟨2⟩ ⟨"Shape", default⟩ none [] [constant 0 "sides" 0 0 1, constant 1 "size" 2 1 2]

def square : Decl :=
  .cls ⟨4⟩ ⟨"Square", default⟩ (some ⟨"Shape", default⟩) [] [constant 3 "sides" 4 2 4]

def area : Decl :=
  .function ⟨6⟩ ⟨"area", default⟩ (.primitive .int) [.var ⟨5⟩ ⟨"n", default⟩ (.primitive .int)]
    (.block ⟨⟨7⟩, default⟩ []
      [.ret ⟨⟨6⟩, default⟩ (some (.name ⟨⟨3⟩, default⟩ ⟨"n", default⟩))])

def main : Decl :=
  .function ⟨7⟩ ⟨"main", default⟩ (.primitive .void) []
    (.block ⟨⟨9⟩, default⟩ []
      [.print ⟨⟨8⟩, default⟩
        [.call ⟨⟨6⟩, default⟩ ⟨"area", default⟩
          [.send ⟨⟨5⟩, default⟩ (.new ⟨⟨4⟩, default⟩ ⟨"Square", default⟩) ⟨"size", default⟩ []]]])

private theorem assembled :
    ((Program.assemble steps [⟨2⟩, ⟨4⟩, ⟨6⟩, ⟨7⟩]).map fun program => program.top) =
      some [shape, square, area, main] := by
  rfl

/-- What the code is, by where functions start and the tables in it. -/
private theorem compiled :
    ((Program.assemble steps [⟨2⟩, ⟨4⟩, ⟨6⟩, ⟨7⟩]).bind fun program =>
        (program.compile {}).toOption.map fun compiled =>
          (compiled.outcome.toOption.isSome, entries compiled.code,
            compiled.code.filter (·.tableOf?.isSome))) =
      some (true, ["_Shape.sides", "_Shape.size", "_Square.sides", "area", "main"],
        [.methodTable "Shape" ["_Shape.sides", "_Shape.size"],
          .methodTable "Square" ["_Square.sides", "_Shape.size"]]) := by
  decide +kernel

end Shapes

/-- A method that is inherited is listed under the class that declares it, and is defined there. -/
theorem Program.output_closed_shapes :
    ∃ program compiled, Program.assemble Shapes.steps [⟨2⟩, ⟨4⟩, ⟨6⟩, ⟨7⟩] = some program ∧
      program.compile {} = .ok compiled ∧
      .methodTable "Square" ["_Square.sides", "_Shape.size"] ∈ compiled.code ∧
      entries compiled.code = ["_Shape.sides", "_Shape.size", "_Square.sides", "area", "main"] ∧
      Closed compiled.code := by
  obtain ⟨program, made, found⟩ := Option.bind_eq_some_iff.mp Shapes.compiled
  obtain ⟨compiled, ran, facts⟩ := Option.map_eq_some_iff.mp found
  obtain ⟨program', made', top⟩ := Option.map_eq_some_iff.mp Shapes.assembled
  obtain rfl : program = program' := Option.some.inj (made.symm.trans made')
  obtain ⟨outcome, starts, tables⟩ : _ ∧ _ ∧ _ := by simpa only [Prod.mk.injEq] using facts
  have ran : program.compile {} = .ok compiled := Arena.ok_of_toOption ran
  obtain ⟨result, succeeds⟩ := Option.isSome_iff_exists.mp outcome
  have succeeds : compiled.outcome = .ok result := Arena.ok_of_toOption succeeds
  have flat : program.Flat := by
    intro id name superclass interfaces members member
    rw [top] at member
    rcases List.mem_cons.mp member with same | member
    · cases same
      decide
    rcases List.mem_cons.mp member with same | member
    · cases same
      decide
    rcases List.mem_pair.mp member with same | same <;> cases same
  have plain : ∀ d ∈ program.top, d.HasPlainName := by
    rw [top]
    simp only [List.forall_mem_cons, Decl.HasPlainName]
    decide
  refine ⟨program, compiled, made, ran, ?_, starts, ?_⟩
  · have listed : .methodTable "Square" ["_Square.sides", "_Shape.size"] ∈
        compiled.code.filter (·.tableOf?.isSome) := by
      rw [tables]
      exact List.mem_cons_of_mem _ List.mem_cons_self
    exact (List.mem_filter.mp listed).1
  · exact Program.output_closed (Program.built_of_assemble made) flat plain rfl ran succeeds

end DecafTac
