import DecafTac.Proofs.Lower.Frames
import DecafTac.Proofs.Lower.Statements

/-!
Functions over numbers and truth values do what they say. Lowering such a function succeeds, and the
machine that runs its segment prints what the body prints and returns what it returns, whatever the
slots hold at the start.
-/
namespace DecafTac

namespace Lower

open Machine

/-! ## The variables of a function -/

/-- The formals of a function with the parameter slots that they come in, from `slot` on. -/
def parameters (shape : FrameShape) : List Decl → (slot : Nat) → List (DeclId × Location)
  | [], _ => []
  | .var id name _ :: rest, slot =>
    (id, ⟨name.name, .frame, shape.paramPosition slot⟩) :: parameters shape rest (slot + 1)
  | _ :: rest, slot => parameters shape rest (slot + 1)

/-- All variables of a function with their slots: the formals, and what the body declares. The receiver
of a method comes before the formals. -/
def slotsOf (arena : Arena) (layouts : Layouts) (layout : Option ClassLayout) (formals : List Decl)
    (body : Stmt) (s : LowerState) : List (DeclId × Location) :=
  parameters s.emitter.shape formals (if layout.isSome then 1 else 0) ++
    locals arena layouts body (started layout formals s)

/-- What the cells of some variables hold when that is what their slots hold. -/
def contents (table : List (DeclId × Location)) (m : Store) : Cells :=
  fun id => (table.lookup id).bind m.read

section Parameters

variable {shape : FrameShape} {slot : DeclId → Location} {ids : List DeclId}

/-- Parameters lie on the frame, each in a slot of its own. -/
theorem parameters_apart (wide : 0 < shape.slotSize) (formals : List Decl) (n : Nat) :
    (∀ entry ∈ parameters shape formals n,
      ∃ i : Nat, n ≤ i ∧ entry.2.position = shape.paramPosition i) ∧
    ((parameters shape formals n).map (·.2.position)).Nodup := by
  induction formals generalizing n with
  | nil => exact ⟨by simp [parameters], List.nodup_nil⟩
  | cons formal rest ih =>
    obtain ⟨places, distinct⟩ := ih (n + 1)
    have later : ∀ entry ∈ parameters shape rest (n + 1),
        ∃ i : Nat, n ≤ i ∧ entry.2.position = shape.paramPosition i := by
      intro entry member
      obtain ⟨i, above, place⟩ := places entry member
      exact ⟨i, by omega, place⟩
    cases formal with
    | var id name type =>
      refine ⟨List.forall_mem_cons.mpr ⟨⟨n, Nat.le_refl n, rfl⟩, later⟩, ?_⟩
      refine List.nodup_cons.mpr ⟨?_, distinct⟩
      intro member
      obtain ⟨entry, member, same⟩ := List.mem_map.mp member
      obtain ⟨i, above, place⟩ := places entry member
      rw [place] at same
      simp only [FrameShape.paramPosition] at same
      have : i = n := eq_of_slots wide (by omega)
      omega
    | cls | interface | prototype | function => exact ⟨later, distinct⟩

/-- The formals are known in the body. -/
theorem bindFormals_models {formals : List Decl} (scalar : formals.all Decl.isScalar = true) {n : Nat}
    {env : Env} {top : List (String × Value)} {b : Bindings} {e : Emitter} (models : b.Models [top])
    (named : [top].flatten = bound slot env) (covered : ∀ entry ∈ env, entry.2.id ∈ ids)
    (stored : ∀ entry ∈ parameters e.shape formals n, entry.1 ∈ ids ∧ slot entry.1 = entry.2) :
    ∃ inner, (bindFormals e formals n b).Models [inner] ∧
      [inner].flatten = bound slot (Env.declare env formals) ∧
      ∀ entry ∈ Env.declare env formals, entry.2.id ∈ ids := by
  induction formals generalizing n env top b with
  | nil => exact ⟨top, models, named, covered⟩
  | cons formal rest ih =>
    rw [List.all_cons, Bool.and_eq_true] at scalar
    cases formal with
    | var id name type =>
      obtain ⟨sort, typed⟩ := Option.isSome_iff_exists.mp scalar.1
      simp only [parameters, List.mem_cons, forall_eq_or_imp] at stored
      obtain ⟨⟨listed, own⟩, stored⟩ := stored
      have declared : Env.declare env (.var id name type :: rest) =
          Env.declare ((name.name, ⟨id, sort⟩) :: env) rest := by simp [Env.declare, typed]
      rw [declared]
      exact ih scalar.2 (models.declare _ _) (bound_declare named typed own)
        (by simpa [listed] using covered) stored
    | cls | interface | prototype | function => cases scalar.1

/-- The body of a function starts with its formals. -/
theorem started_knows {formals : List Decl} (scalar : formals.all Decl.isScalar = true)
    (layout : Option ClassLayout) (s : LowerState)
    (stored : ∀ entry ∈ parameters s.emitter.shape formals (if layout.isSome then 1 else 0),
      entry.1 ∈ ids ∧ slot entry.1 = entry.2) :
    ∃ top, Knows slot (Env.declare [] formals) [top] (started layout formals s) ∧
      ∀ entry ∈ Env.declare [] formals, entry.2.id ∈ ids := by
  have named : [[]].flatten = bound slot [] := rfl
  cases layout with
  | none =>
    obtain ⟨top, models, named, covered⟩ := bindFormals_models (e := (started none formals s).emitter)
      scalar Bindings.models_empty named (by simp) stored
    exact ⟨top, ⟨rfl, models, named⟩, covered⟩
  | some layout =>
    obtain ⟨top, models, named, covered⟩ :=
      bindFormals_models (e := (started (some layout) formals s).emitter) scalar Bindings.models_empty
        named (by simp) stored
    exact ⟨top, ⟨rfl, models, named⟩, covered⟩

end Parameters

/-! ## Declarations are told apart -/

/-- The node of a declaration that has a slot. -/
private def declNode (entry : DeclId × Location) : Node := .decl entry.1

private theorem parameters_nodes (shape : FrameShape) (formals : List Decl) (n : Nat) :
    ((parameters shape formals n).map declNode).Sublist (Decl.nodesAll formals) := by
  induction formals generalizing n with
  | nil => exact .slnil
  | cons formal rest ih =>
    cases formal with
    | var id name type => exact (ih (n + 1)).cons_cons _
    | cls | interface | prototype | function =>
      exact (ih (n + 1)).trans (List.sublist_append_right ..)

private theorem storage_nodes (e : Emitter) (decls : List Decl) :
    ((storage e decls).map declNode).Sublist (Decl.nodesAll decls) := by
  induction decls generalizing e with
  | nil => exact .slnil
  | cons decl rest ih =>
    cases decl with
    | var id name type => exact (ih _).cons_cons _
    | cls | interface | prototype | function => exact (ih e).trans (List.sublist_append_right ..)

private theorem after_nodes {α : Type} {step : Lower α} {s : LowerState} {nodes : List Node}
    {rest : α → LowerState → List (DeclId × Location)}
    (each : ∀ a s, ((rest a s).map declNode).Sublist nodes) :
    ((after step rest s).map declNode).Sublist nodes := by
  unfold after
  split
  · exact each _ _
  · exact List.nil_sublist _

private theorem loop_nodes {id : StmtId} {test : Lower Value} {s : LowerState} {nodes : List Node}
    {body : LowerState → List (DeclId × Location)}
    (each : ∀ s, ((body s).map declNode).Sublist nodes) :
    ((loopLocals id test body s).map declNode).Sublist nodes :=
  after_nodes fun _ _ => after_nodes fun _ _ => after_nodes fun _ _ => after_nodes fun _ _ =>
    after_nodes fun _ _ => after_nodes fun _ s => each s

section Nodes

variable (arena : Arena) (layouts : Layouts)

mutual

/-- What a statement declares is declared by nodes in it, each of them once. -/
private theorem locals_nodes : ∀ (t : Stmt) (s : LowerState),
    ((locals arena layouts t s).map declNode).Sublist (Decl.nodesIn t)
  | .block _ decls body, s => by
    rw [locals]
    refine .cons _ (after_nodes fun _ s => ?_)
    rw [List.map_append]
    exact (storage_nodes _ decls).append (after_nodes fun _ s => localsAll_nodes body s)
  | .ifThen _ test body, s => by
    rw [locals]
    refine .cons _ (.trans ?_ (List.sublist_append_right ..))
    exact after_nodes fun _ _ => after_nodes fun _ _ => after_nodes fun _ s => locals_nodes body s
  | .ifElse _ test yes no, s => by
    rw [locals]
    refine .cons _ (.trans ?_ (List.sublist_append_right ..))
    refine after_nodes fun _ _ => after_nodes fun _ _ => after_nodes fun _ s => ?_
    rw [List.map_append]
    exact (locals_nodes yes s).append (after_nodes fun _ _ => after_nodes fun _ _ =>
      after_nodes fun _ _ => after_nodes fun _ s => locals_nodes no s)
  | .whileLoop _ test body, s => by
    rw [locals]
    exact .cons _ (.trans (loop_nodes (locals_nodes body)) (List.sublist_append_right ..))
  | .forLoop _ init test step body, s => by
    rw [locals]
    refine .cons _ (.trans (after_nodes fun _ _ => loop_nodes (locals_nodes body)) ?_)
    exact (List.sublist_append_right ..).trans
      ((List.sublist_append_right ..).trans (List.sublist_append_right ..))
  | .ret .., _ | .print .., _ | .leave _, _ | .expr .., _ | .knot _, _ => List.nil_sublist _

private theorem localsAll_nodes : ∀ (body : List Stmt) (s : LowerState),
    ((localsAll arena layouts body s).map declNode).Sublist (Decl.nodesInAll body)
  | [], _ => .slnil
  | t :: rest, s => by
    simp only [localsAll, List.map_append]
    exact (locals_nodes t s).append (after_nodes fun _ s => localsAll_nodes rest s)

end

end Nodes

/-! ## Functions -/

section Functions

variable {arena : Arena} (coherent : arena.Coherent) {id : DeclId} {name : Ident} {result : TypeExpr}
  {formals : List Decl} {body : Stmt}
  (stored : arena.decl? id = some (.function id name result formals body))
  (layouts : Layouts) (layout : Option ClassLayout) {s : LowerState}

include coherent stored in
/-- No declaration of a function has two slots. -/
theorem slotsOf_single (s : LowerState) :
    ((slotsOf arena layouts layout formals body s).map Prod.fst).Nodup := by
  have found : arena.tree? (.decl id) = some (.decl (.function id name result formals body)) := by
    simp [Arena.tree?, stored]
  have single : (Decl.nodesAll formals ++ Decl.nodesIn body).Nodup :=
    (List.nodup_cons.mp (coherent.single _ _ found)).2
  have nodes : ((slotsOf arena layouts layout formals body s).map declNode).Sublist
      (Decl.nodesAll formals ++ Decl.nodesIn body) := by
    rw [slotsOf, List.map_append]
    exact (parameters_nodes ..).append (locals_nodes ..)
  refine List.Nodup.of_map Node.decl ?_
  rw [List.map_map]
  exact single.sublist nodes

variable (between : Between s.emitter.shape s.emitter.globals s) (wide : 0 < s.emitter.shape.slotSize)
  (below : s.emitter.shape.firstLocal < s.emitter.shape.firstParam)

/-- The slot of a declaration. -/
def slotIn (table : List (DeclId × Location)) (id : DeclId) : Location := (table.lookup id).getD default

theorem slotIn_eq {table : List (DeclId × Location)} (single : (table.map Prod.fst).Nodup)
    {entry : DeclId × Location} (member : entry ∈ table) : slotIn table entry.1 = entry.2 := by
  rw [slotIn, Table.lookup_of_mem single member]
  rfl

/-- Code and variables are apart when all their slots differ. -/
private theorem apart_of_distinct {whole : List Instruction} {table : List (DeclId × Location)}
    (labels : (labels whole).Nodup) (single : (table.map Prod.fst).Nodup)
    (distinct : (scratch whole ++ table.map (·.2.position)).Nodup) :
    Apart whole (slotIn table) (table.map Prod.fst) := by
  rw [List.nodup_append] at distinct
  refine ⟨labels, distinct.1, ?_, ?_⟩
  · rintro id listed member
    obtain ⟨entry, isEntry, rfl⟩ := List.mem_map.mp listed
    rw [slotIn_eq single isEntry] at member
    exact distinct.2.2 _ member _ (List.mem_map_of_mem isEntry) rfl
  · rintro a listedA b listedB same
    obtain ⟨first, isFirst, rfl⟩ := List.mem_map.mp listedA
    obtain ⟨second, isSecond, rfl⟩ := List.mem_map.mp listedB
    rw [slotIn_eq single isFirst, slotIn_eq single isSecond] at same
    rw [List.inj_on_of_nodup_map distinct.2.1 isFirst isSecond same]

include between wide below in
/-- The slots of a function differ: those of its temporaries, of its formals and of its locals. -/
private theorem slots_distinct :
    (scratch (stmt arena layouts body (started layout formals s)).code ++
      (slotsOf arena layouts layout formals body s).map (·.2.position)).Nodup := by
  have emitter := started_emitter layout formals s
  have sound : Sound (formals.length + if layout.isSome then 1 else 0) [] []
      (stmt arena layouts body) (fun _ => []) (locals arena layouts body) :=
    stmt_sound arena layouts [] body
  obtain ⟨frame, -⟩ := sound.safeFrame wide below (between.started layout formals)
    (by rw [emitter]) (by rw [emitter]) (by rw [emitter])
  obtain ⟨places, params⟩ :=
    parameters_apart wide formals (if layout.isSome then 1 else 0)
  have distinct := frame.distinct
  rw [List.map_append, List.map_map] at distinct
  have moved : (scratch (stmt arena layouts body (started layout formals s)).code ++
      (slotsOf arena layouts layout formals body s).map (·.2.position)).Perm
      ((parameters s.emitter.shape formals (if layout.isSome then 1 else 0)).map (·.2.position) ++
        (scratch (stmt arena layouts body (started layout formals s)).code ++
          (locals arena layouts body (started layout formals s)).map (·.2.position))) := by
    rw [slotsOf, List.map_append]
    exact List.perm_append_comm_assoc ..
  refine moved.nodup_iff.mpr (List.nodup_append.mpr ⟨params, distinct, ?_⟩)
  rintro offset isParam _ other rfl
  obtain ⟨entry, isEntry, rfl⟩ := List.mem_map.mp isParam
  obtain ⟨n, -, place⟩ := places entry isEntry
  have other : entry.2.position ∈ (temporaries (stmt arena layouts body (started layout formals s)).code ++
      (locals arena layouts body (started layout formals s)).map Prod.snd).map Location.position := by
    rw [List.map_append, List.map_map]
    exact other
  obtain ⟨loc, isSlot, same⟩ := List.mem_map.mp other
  exact frame.apart loc isSlot n (same.trans place)

/-- The brackets of a segment place no label and write no temporary. -/
private theorem bracketed (code : List Instruction) (size : Int) :
    labels (.beginFunc :: (code ++ [.endFunc size])) = labels code ∧
      scratch (.beginFunc :: (code ++ [.endFunc size])) = scratch code := by
  have opening : labels (.beginFunc :: (code ++ [.endFunc size])) = labels (code ++ [.endFunc size]) ∧
      scratch (.beginFunc :: (code ++ [.endFunc size])) = scratch (code ++ [.endFunc size]) := ⟨rfl, rfl⟩
  rw [opening.1, opening.2, labels_append, scratch_append]
  exact ⟨List.append_nil _, List.append_nil _⟩

include coherent stored between wide below in
/-- The labels and the storage of a function are its own. -/
theorem segment_apart (size : Int) :
    Apart (.beginFunc :: ((stmt arena layouts body (started layout formals s)).code ++ [.endFunc size]))
      (slotIn (slotsOf arena layouts layout formals body s))
      ((slotsOf arena layouts layout formals body s).map Prod.fst) := by
  obtain ⟨advance, -⟩ := stmt_sound arena layouts [] body _ (between.started layout formals) (by simp)
    (by simp)
  obtain ⟨sameLabels, sameScratch⟩ :=
    bracketed (stmt arena layouts body (started layout formals s)).code size
  refine apart_of_distinct ?_ (slotsOf_single coherent stored layouts layout s) ?_
  · rw [sameLabels]
    exact advance.labels_distinct
  · rw [sameScratch]
    exact slots_distinct layouts layout between wide below

include coherent stored between wide below in
/-- The body of a function over numbers and truth values is lowered to code that carries it out. -/
theorem body_simulates (arith : Arithmetic) (size : Int)
    (scalarFormals : formals.all Decl.isScalar = true)
    (scalarBody : body.isScalar (Env.declare [] formals) false = true) :
    ∃ stack, Simulates arith
      (.beginFunc :: ((stmt arena layouts body (started layout formals s)).code ++ [.endFunc size]))
      (slotIn (slotsOf arena layouts layout formals body s))
      ((slotsOf arena layouts layout formals body s).map Prod.fst) (Env.declare [] formals) stack none
      (.stmt body) (Decl.nodesIn body) (stmt arena layouts body) (started layout formals s) := by
  have apart := segment_apart coherent stored layouts layout between wide below size
  have single := slotsOf_single coherent stored layouts layout s
  have placed : ∀ entry ∈ slotsOf arena layouts layout formals body s,
      entry.1 ∈ (slotsOf arena layouts layout formals body s).map Prod.fst ∧
        slotIn (slotsOf arena layouts layout formals body s) entry.1 = entry.2 :=
    fun entry member => ⟨List.mem_map_of_mem member, slotIn_eq single member⟩
  obtain ⟨top, knows, covered⟩ := started_knows scalarFormals layout s
    fun entry member => placed entry (List.mem_append_left _ member)
  have found : arena.tree? (.decl id) = some (.decl (.function id name result formals body)) := by
    simp [Arena.tree?, stored]
  have inner : arena.stmt? body.id = some body := by
    have kept := coherent.closed _ _ found (.stmt body) (by simp [Tree.children, Decl.children])
    simpa [Arena.tree?, Tree.node] using kept
  exact ⟨[top], stmt_lowered coherent apart body inner rfl scalarBody _ _
    ⟨knows, covered, fun entry member => placed entry (List.mem_append_right _ member), by simp⟩⟩

/-- A segment comes to its end when its code does, or returns from it. -/
private theorem segment_finishes {arith : Arithmetic} {code : List Instruction} {size : Int}
    {slot : DeclId → Location} {ids : List DeclId} {env : Env} {m : Store} {out : List Datum}
    {exit : Exit} {cells cells' : Cells}
    (carries : Carries arith (.beginFunc :: (code ++ [.endFunc size])) slot ids env none (.stmt body) code)
    (agrees : Agrees slot ids cells m) (ran : Exec arith env (.stmt body) cells out exit cells') :
    ∃ m', Finishes arith (.beginFunc :: (code ++ [.endFunc size])) ⟨0, m, []⟩
      ⟨exit.value?.map Datum.word, m', out.map Datum.printed⟩ ∧ Agrees slot ids cells' m' := by
  have at_ : CodeAt (.beginFunc :: (code ++ [.endFunc size])) 1 (code ++ [.endFunc size]) :=
    ⟨[.beginFunc], [], by simp, rfl⟩
  have begins : Reaches arith (.beginFunc :: (code ++ [.endFunc size])) ⟨0, m, []⟩ ⟨1, m, []⟩ :=
    reaches_effect rfl rfl
  have arrives := carries [] at_.left agrees ran
  rw [List.nil_append] at arrives
  cases exit with
  | normal =>
    obtain ⟨m', agrees', reached⟩ := arrives
    refine ⟨m', ⟨_, begins.trans reached, ?_⟩, agrees'⟩
    simp [step, at_.right.fetch, Exit.value?]
  | left =>
    obtain ⟨label, none, -⟩ := arrives
    cases none
  | returned value =>
    obtain ⟨m', agrees', finished⟩ := arrives
    exact ⟨m', begins.finishes finished, agrees'⟩

/-- At the start the cells hold what the slots hold. -/
private theorem contents_agrees {table : List (DeclId × Location)} (single : (table.map Prod.fst).Nodup)
    (m : Store) : Agrees (slotIn table) (table.map Prod.fst) (contents table m) m := by
  intro id listed
  obtain ⟨entry, member, rfl⟩ := List.mem_map.mp listed
  rw [contents, slotIn_eq single member, Table.lookup_of_mem single member]
  rfl

end Functions

/-- A function over numbers and truth values is lowered without fault, from any state that lowering can
be in between functions, and the machine that runs its segment does what the body does: whatever the
slots hold at the start, it comes to an end when the body does, has printed the same and gives the same
value. The variables are left as the body leaves them. -/
theorem function_refines {program : Program} (built : program.Built) {id : DeclId} {name : Ident}
    {result : TypeExpr} {formals : List Decl} {body : Stmt}
    (stored : program.arena.decl? id = some (.function id name result formals body))
    (scalarFormals : formals.all Decl.isScalar = true)
    (scalarBody : body.isScalar (Env.declare [] formals) false = true)
    (layouts : Layouts) (layout : Option ClassLayout) {s : LowerState}
    (between : Between s.emitter.shape s.emitter.globals s) (wide : 0 < s.emitter.shape.slotSize)
    (below : s.emitter.shape.firstLocal < s.emitter.shape.firstParam) :
    ∃ next rest, function program.arena layouts layout (.function id name result formals body) s =
        ⟨.ok (), next, .label (functionLabel layout name.name) :: .beginFunc :: rest⟩ ∧
      ∀ arith m out exit cells, Exec arith (Env.declare [] formals) (.stmt body)
          (contents (slotsOf program.arena layouts layout formals body s) m) out exit cells →
        ∃ m', Finishes arith (.beginFunc :: rest) ⟨0, m, []⟩
            ⟨exit.value?.map Datum.word, m', out.map Datum.printed⟩ ∧
          ∀ entry ∈ slotsOf program.arena layouts layout formals body s,
            cells entry.1 = m'.read entry.2 := by
  have coherent := built.coherent.arena
  have lowered (arith : Arithmetic) (size : Int) :=
    body_simulates coherent stored layouts layout between wide below arith size scalarFormals scalarBody
  have single := slotsOf_single coherent stored layouts layout s
  obtain ⟨_, final, code, run, -⟩ := lowered .exact 0
  have segment : function program.arena layouts layout (.function id name result formals body) s =
      ⟨.ok (), (closeFrame final).state, .label (functionLabel layout name.name) :: .beginFunc ::
        (code ++ [.endFunc (slotBytes final.emitter.shape.slotSize final.emitter.locals)])⟩ := by
    rw [function, segment_apply, run]
  refine ⟨_, _, segment, ?_⟩
  intro arith m out exit cells ran
  obtain ⟨_, _, _, run', -, -, carries⟩ :=
    lowered arith (slotBytes final.emitter.shape.slotSize final.emitter.locals)
  rw [run] at run' carries
  cases run'
  obtain ⟨m', finished, agrees⟩ := segment_finishes carries (contents_agrees single m) ran
  refine ⟨m', finished, fun entry member => ?_⟩
  rw [agrees entry.1 (List.mem_map_of_mem member), slotIn_eq single member]

end Lower

namespace Squares

/-- A function that prints the squares of the numbers from zero on, each kept in a variable that hides
the formal, until one is above three; it returns the next number and the formal added up. -/
def steps : List Step :=
  let word (name : String) : Ident := ⟨name, default⟩
  [ .var (word "n") (.primitive .int), .var (word "i") (.primitive .int), .var (word "n") (.primitive .int),
    .name (word "i"), .int 0 default, .assign ⟨0⟩ ⟨1⟩, .bool true default,
    .name (word "i"), .name (word "i"), .int 1 default, .binary .add ⟨5⟩ ⟨6⟩, .assign ⟨4⟩ ⟨7⟩,
    .name (word "n"), .name (word "i"), .name (word "i"), .binary .mul ⟨10⟩ ⟨11⟩, .assign ⟨9⟩ ⟨12⟩,
    .expr ⟨13⟩, .name (word "n"), .int 3 default, .binary .gt ⟨14⟩ ⟨15⟩, .leave default,
    .ifElse ⟨16⟩ ⟨1⟩ none default, .name (word "n"), .print [⟨17⟩] default,
    .block [⟨2⟩] [⟨0⟩, ⟨2⟩, ⟨3⟩] default, .forLoop (some ⟨2⟩) ⟨3⟩ (some ⟨8⟩) ⟨4⟩ default,
    .name (word "i"), .name (word "n"), .binary .add ⟨18⟩ ⟨19⟩, .ret (some ⟨20⟩) default,
    .block [⟨1⟩] [⟨5⟩, ⟨6⟩] default, .function (word "main") (.primitive .int) [⟨0⟩] (some ⟨7⟩) ]

/-- A variable for numbers. -/
def number (name : String) (id : Nat) : Decl := .var ⟨id⟩ ⟨name, default⟩ (.primitive .int)

/-- A use of a name. -/
def named (name : String) (id : Nat) : Expr := .name ⟨⟨id⟩, default⟩ ⟨name, default⟩

/-- One round of its loop. -/
def round : Stmt :=
  .block ⟨⟨4⟩, default⟩ [number "n" 2]
    [ .expr ⟨⟨0⟩, default⟩ (.assign ⟨⟨13⟩, default⟩ (named "n" 9)
        (.binary ⟨⟨12⟩, default⟩ .mul (named "i" 10) (named "i" 11))),
      .ifThen ⟨⟨2⟩, default⟩ (.binary ⟨⟨16⟩, default⟩ .gt (named "n" 14) (.int ⟨⟨15⟩, default⟩ 3))
        (.leave ⟨⟨1⟩, default⟩),
      .print ⟨⟨3⟩, default⟩ [named "n" 17] ]

/-- Its body. -/
def body : Stmt :=
  .block ⟨⟨7⟩, default⟩ [number "i" 1]
    [ .forLoop ⟨⟨5⟩, default⟩
        (some (.assign ⟨⟨2⟩, default⟩ (named "i" 0) (.int ⟨⟨1⟩, default⟩ 0)))
        (.bool ⟨⟨3⟩, default⟩ true)
        (some (.assign ⟨⟨8⟩, default⟩ (named "i" 4)
          (.binary ⟨⟨7⟩, default⟩ .add (named "i" 5) (.int ⟨⟨6⟩, default⟩ 1))))
        round,
      .ret ⟨⟨6⟩, default⟩ (some (.binary ⟨⟨20⟩, default⟩ .add (named "i" 18) (named "n" 19))) ]

private theorem steps_found :
    ((Program.assemble steps [⟨3⟩]).bind fun program => program.arena.decl? ⟨3⟩) =
      some (.function ⟨3⟩ ⟨"main", default⟩ (.primitive .int) [number "n" 0] body) := by
  rfl

/-- Two rounds print, and the third leaves the loop. -/
private theorem body_runs (c : Cells) (ten : c ⟨0⟩ = some (.int 10)) :
    ∃ c', Exec .checked (Env.declare [] [number "n" 0]) (.stmt body) c
      (([.int 0] ++ ([.int 1] ++ [])) ++ []) (.returned (some (.int 12))) c' := by
  let env : Env := [("i", ⟨⟨1⟩, .int⟩), ("n", ⟨⟨0⟩, .int⟩)]
  -- What is printed is written here as the rules put it together.
  have first (c : Cells) : Exec .checked env (.stmt round) (c.set ⟨1⟩ (.int 0))
      ([] ++ ([] ++ ([.int 0] ++ []))) .normal ((c.set ⟨1⟩ (.int 0)).set ⟨2⟩ (.int 0)) :=
    .block (.cons (.expr rfl) (.cons (.skipped rfl) (.cons (.print rfl) .nil)))
  have second (c : Cells) : Exec .checked env (.stmt round) (c.set ⟨1⟩ (.int 1))
      ([] ++ ([] ++ ([.int 1] ++ []))) .normal ((c.set ⟨1⟩ (.int 1)).set ⟨2⟩ (.int 1)) :=
    .block (.cons (.expr rfl) (.cons (.skipped rfl) (.cons (.print rfl) .nil)))
  have third (c : Cells) : Exec .checked env (.stmt round) (c.set ⟨1⟩ (.int 2)) ([] ++ [])
      .left ((c.set ⟨1⟩ (.int 2)).set ⟨2⟩ (.int 4)) :=
    .block (.cons (.expr rfl) (.stop (.taken rfl .leave) (by decide)))
  have sum (c : Cells) (ten : c ⟨0⟩ = some (.int 10)) (two : c ⟨1⟩ = some (.int 2)) :
      (Expr.binary ⟨⟨20⟩, default⟩ .add (named "i" 18) (named "n" 19)).eval .checked env c =
        some (.int 12) := by
    have means : (Expr.binary ⟨⟨20⟩, default⟩ .add (named "i" 18) (named "n" 19)).eval .checked env c =
        ((c ⟨1⟩).bind Scalar.int.read).bind fun a =>
          ((c ⟨0⟩).bind Scalar.int.read).bind fun b => BinaryOp.eval .checked .add a b := rfl
    rw [means, ten, two]
    rfl
  exact ⟨_, .block (.cons
    (.forLoop rfl (.again rfl (first c) rfl (.again rfl (second _) rfl (.broken rfl (third _)))))
    (.stop (.ret (sum _ ten rfl)) (by decide)))⟩

end Squares

/-- Run with ten in every slot, it prints two squares and returns twelve. -/
theorem Lower.function_refines_squares :
    ∃ program, Program.assemble Squares.steps [⟨3⟩] = some program ∧
      ∃ next rest, Lower.function program.arena {} none
          (.function ⟨3⟩ ⟨"main", default⟩ (.primitive .int) [Squares.number "n" 0] Squares.body)
          { emitter := { shape := {} } } = ⟨.ok (), next, .label "main" :: .beginFunc :: rest⟩ ∧
        ∃ m', Machine.Finishes .checked (.beginFunc :: rest) ⟨0, fun _ _ => some (.int 10), []⟩
          ⟨some (.int 12), m', [.int 0, .int 1]⟩ := by
  obtain ⟨program, made, stored⟩ := Option.bind_eq_some_iff.mp Squares.steps_found
  obtain ⟨next, rest, lowered, runs⟩ := Lower.function_refines (Program.built_of_assemble made) stored
    (by decide) (by decide) {} none (s := { emitter := { shape := {} } }) ⟨rfl, rfl, by simp⟩ (by decide)
    (by decide)
  obtain ⟨c', ran⟩ := Squares.body_runs
    (Lower.contents (Lower.slotsOf program.arena {} none [Squares.number "n" 0] Squares.body
      { emitter := { shape := {} } }) fun _ _ => some (.int 10)) rfl
  obtain ⟨m', finished, -⟩ := runs _ _ _ _ _ ran
  exact ⟨program, made, next, rest, lowered, m', finished⟩

end DecafTac
