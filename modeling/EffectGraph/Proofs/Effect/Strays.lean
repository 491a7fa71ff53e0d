import EffectGraph.Command
import EffectGraph.Proofs.Config.Strays
import EffectGraph.Proofs.Effect.Faults

/-!
# How compiling strays

Files that load are merged and compiled (`compileMerged`). Whatever they hold, this
gives an effect, or an error that is reported, or it strays: in merging, at a node
whose attribute cannot be looked up, or at a modifier (`Strays`,
`compileMerged_error_iff`). It does stray (`compileMerged_strays`).
-/

namespace EffectGraph

namespace Command

theorem isReported_iff {e : Error} : isReported e ↔
    e.kind ∈ [.invalid, .syntaxFault, .validation, .expression, .evaluation, .handle] := by
  rw [isReported, List.contains_iff_mem]

/-- Errors of the classes that stray are not reported. -/
theorem not_isReported {e : Error} (h : e.kind ∈ [.mistyped, .overflow, .recursion]) : ¬isReported e := by
  rw [isReported_iff]
  simp only [List.mem_cons, List.not_mem_nil, or_false] at h ⊢
  rcases h with h | h | h <;> simp [h]

end Command

/-! ## Modifiers -/

namespace Modifier

/-- How the part of an offset fails that is not reported. -/
inductive PartStrays : Data → Error → Prop
  | large {i : Int} : Binary64.ofInt? i = none → PartStrays (.int i) .intTooLarge
  | kind {d : Data} : d.isNumeral = false → PartStrays d (.notReal d.fullKind)

/-- How a modifier fails that is not reported, where properties of these names are
declared. -/
inductive Strays [Stack] (names : List Text) (d : ModifierDef) : Error → Prop
  | property {name : Data} : types.lookup d.type = some floatingOriginFactory →
      Data.lookup "property" d.params = some name → Data.lookup "offset" d.params = none →
      name.obstacle? = some .depth → Strays names d .deepData
  | whole {offset : Data} : types.lookup d.type = some floatingOriginFactory →
      Data.lookup "property" d.params = none → Data.lookup "offset" d.params = some offset →
      offset.elements? = none → Strays names d (.notUnpackable offset.fullKind)
  | part {offset x : Data} {done rest : List Data} {e : Error} : types.lookup d.type = some floatingOriginFactory →
      Data.lookup "property" d.params = none → Data.lookup "offset" d.params = some offset →
      offset.elements? = some (done ++ x :: rest) → (done ++ x :: rest).length = 3 →
      (∀ y ∈ done, ∃ v, y.toFloat = .ok v) → PartStrays x e → Strays names d e
  | params : types.lookup d.type = some floatingOriginFactory → originFault? names d.params = none →
      (Data.map d.params).obstacle? = some .depth → Strays names d .deepData

variable {names : List Text} {d : ModifierDef} {e : Error}

theorem PartStrays.noFloat {x : Data} (h : PartStrays x e) : Data.NoFloat x e := by
  cases h with
  | large hi => exact .large hi
  | kind hx => exact .kind hx

theorem Refuses.strays [Stack] (h : Refuses names d e) : e.kind = .invalid ∨ Strays names d e := by
  cases h with
  | type _ => exact .inl rfl
  | @log o htype hfault hobstacle =>
    cases o with
    | longInteger => exact .inl rfl
    | depth => exact .inr (.params htype hfault hobstacle)
  | origin htype h =>
    cases h with
    | count _ => exact .inl rfl
    | @property name hname hoffset _ =>
      rcases Error.kind_about [name] (e := .originProperty name) rfl with hinvalid | ⟨hdeep, habout⟩
      · exact .inl hinvalid
      · rw [habout]
        exact .inr (.property htype hname hoffset (by simpa using hdeep))
    | offset hname hoffset h =>
      cases h with
      | whole hwhole => exact .inr (.whole htype hname hoffset hwhole)
      | few _ _ => exact .inl rfl
      | many _ _ => exact .inl rfl
      | part hxs hlength hdone h =>
        cases h with
        | large hi => exact .inr (.part htype hname hoffset hxs hlength hdone (.large hi))
        | text _ => exact .inl rfl
        | bytes _ => exact .inl rfl
        | kind hx => exact .inr (.part htype hname hoffset hxs hlength hdone (.kind hx))

theorem Strays.refuses [Stack] (h : Strays names d e) : Refuses names d e := by
  cases h with
  | @property name htype hname hoffset hdeep =>
    have hamong : isAmong names name = false := by
      cases name with
      | str s => exact absurd hdeep (Data.obstacle?_ne_depth rfl)
      | _ => rfl
    rw [← Error.about_of_depth [name] (by simpa using hdeep) (.originProperty name)]
    exact .origin htype (.property hname hoffset hamong)
  | whole htype hname hoffset hwhole => exact .origin htype (.offset hname hoffset (.whole hwhole))
  | part htype hname hoffset hxs hlength hdone h =>
    exact .origin htype (.offset hname hoffset (.part hxs hlength hdone h.noFloat))
  | params htype hfault hdeep => exact .log htype hfault hdeep

theorem Strays.kind [Stack] (h : Strays names d e) : e.kind ∈ [.mistyped, .overflow, .recursion] := by
  cases h with
  | part _ _ _ _ _ _ h => cases h <;> simp [Error.kind]
  | _ => simp [Error.kind]

end Modifier

/-! ## Compiling -/

namespace Compiler

/-- Merges files and compiles what they say. -/
def compileMerged [Stack] (c : Compiler) (name : String) (configs : List Config.GraphConfig) : Except Error Effect := do
  c.compile (← Config.merge name configs)

/-- How merging and compiling fail so that it is not reported. -/
inductive Strays [Stack] (c : Compiler) (name : String) (configs : List Config.GraphConfig) : Error → Prop
  | merge {e : Error} : Config.Strays name configs e → Strays c name configs e
  | node {d : Definition} {done rest : List NodeDef} {n : NodeDef} {value : Data} {kind : String} :
      Config.merge name configs = .ok d → d.nodes = done ++ n :: rest →
      (∀ x ∈ done, ∃ node, Registry.builtin.create x = .ok node) → n.type = "Attribute" →
      Data.lookup "attribute" n.params = some value → value.truthy → value.unkeyable? = some kind →
      Strays c name configs (.unkeyable kind)
  | modifier {d : Definition} {done rest : List ModifierDef} {x : ModifierDef} {effect : Effect} {e : Error} :
      Config.merge name configs = .ok d → d.modifiers = done ++ x :: rest →
      c.compile { d with modifiers := done } = .ok effect →
      Modifier.Strays (d.properties.map Prod.fst) x e → Strays c name configs e

section

variable [Stack] {c : Compiler} {name : String} {configs : List Config.GraphConfig} {d : Definition} {e : Error}

theorem Strays.kind (h : Strays c name configs e) : e.kind ∈ [.mistyped, .overflow, .recursion] := by
  cases h with
  | merge h => rcases h.kind with h | h <;> simp [h]
  | node _ _ _ _ _ _ _ => simp [Error.kind]
  | modifier _ _ _ h => exact h.kind

/-- A merged definition fails in a way that is reported, or it strays. -/
theorem Fails.strays (hr : c.registry = Registry.builtin) (hd : Config.merge name configs = .ok d)
    (h : Fails c d e) : Command.isReported e ∨ Strays c name configs e := by
  have hinvalid : e.kind = .invalid → Command.isReported e := fun h => Command.isReported_iff.2 (by simp [h])
  cases h with
  | build hb =>
    rcases construct_error_cases (Config.settled_merge hd).nodes hb with h | ⟨l, -, h⟩
    · obtain ⟨done, n, rest, hsplit, hdone, hn⟩ := Except.mapM_eq_error.1 h
      rw [hr] at hdone hn
      cases Registry.create_eq_error.1 hn with
      | type _ | param _ _ | unknown _ _ _ _ _ => exact .inl (hinvalid rfl)
      | unkeyable htype hvalue htruthy hkind =>
        exact .inr (.node hd hsplit hdone htype hvalue htruthy hkind)
    · exact .inl (hinvalid h.kind)
  | output hb hts =>
    obtain ⟨o, -, h | rfl⟩ := targets_error hb hts
    · exact .inl (hinvalid h.kind)
    · exact .inl (hinvalid rfl)
  | evaluation hb hts heval =>
    have hkind := kind_of_evaluate hr hb hts heval
    exact .inl (Command.isReported_iff.2 (by simp [hkind]))
  | modifier hsplit hdone hrefused =>
    exact hrefused.strays.imp hinvalid (.modifier hd hsplit hdone)

/-- What strays does not give an effect. -/
theorem Strays.compileMerged_eq (hr : c.registry = Registry.builtin) (hm : c.modifiers = Modifier.types)
    (h : Strays c name configs e) : c.compileMerged name configs = .error e := by
  refine Except.bind_eq_error.2 ?_
  cases h with
  | merge h => exact .inl h.merge_eq
  | @node d done rest n value kind hd hsplit hdone htype hvalue htruthy hkind =>
    refine .inr ⟨d, hd, ?_⟩
    have hnodes : d.nodes.mapM c.registry.create = .error (.unkeyable kind) := by
      rw [hr]
      exact Except.mapM_eq_error.2
        ⟨done, n, rest, hsplit, hdone, Registry.create_eq_error.2 (.unkeyable htype hvalue htruthy hkind)⟩
    have hsettled := Config.settled_merge hd
    exact (compile_eq_error hr hm hsettled).2 (.build (construct_eq_error_of_nodes hsettled.nodes hnodes))
  | modifier hd hsplit hdone h =>
    exact .inr ⟨_, hd, (compile_eq_error hr hm (Config.settled_merge hd)).2 (.modifier hsplit hdone h.refuses)⟩

theorem compileMerged_error (hr : c.registry = Registry.builtin) (hm : c.modifiers = Modifier.types)
    (h : c.compileMerged name configs = .error e) : Command.isReported e ∨ Strays c name configs e := by
  rcases Except.bind_eq_error.1 h with h | ⟨d, hd, h⟩
  · rcases Config.merge_error h with hkind | h
    · exact .inl (Command.isReported_iff.2 (by simp [hkind]))
    · exact .inr (.merge h)
  · exact ((compile_eq_error hr hm (Config.settled_merge hd)).1 h).strays hr hd

end

end Compiler

/-! ## The command -/

namespace Config

/-- The files of a graph, all of them loaded. -/
def loadConfigs [Stack] (files : Files) (configDir name : String) : Except Error (List GraphConfig) := do
  let (dir, names) ← findFiles files configDir name
  let (configs, done) := loadFiles files dir 0 names
  done
  return configs.map Prod.snd

theorem loadGraph_eq [Stack] (files : Files) (configDir name : String) :
    loadGraph files configDir name = loadConfigs files configDir name >>= merge name := by
  unfold loadGraph loadConfigs
  cases findFiles files configDir name with
  | error e => rfl
  | ok found =>
    obtain ⟨dir, names⟩ := found
    simp only [bind, Except.bind]
    cases (loadFiles files dir 0 names).2 <;> rfl

end Config

/-- What prints bytes takes the texts of characters. -/
theorem Printer.ofBytes_eq_ok_iff {code : Text} : ofBytes code = .ok () ↔ ∀ g ∈ code.glyphs, ∃ c, g = .char c := by
  have hhalf : ∀ g : Glyph, (!isHalf g) = true ↔ ∃ c, g = .char c := by
    intro g
    cases g <;> simp [isHalf]
  unfold ofBytes
  rw [← List.dropWhile_eq_nil_iff.trans (forall₂_congr fun g _ => hhalf g)]
  split
  · next h => simp [h]
  · next h => simp [h]

namespace Command

variable (printer : Printer) {files : Files} {configDir name : String} {configs : List Config.GraphConfig} {e : Error}

/-- The command compiles the files that it has loaded, and prints the code. -/
theorem compileGraph_of_ok [Stack] {effect : Effect} (hloaded : Config.loadConfigs files configDir name = .ok configs)
    (h : Compiler.compileMerged {} name configs = .ok effect) :
    ∃ log, compileGraph printer files configDir name = printed printer log effect.code := by
  obtain ⟨d, hd, h⟩ := Except.bind_eq_ok.1 h
  have hgraph : Config.loadGraph files configDir name = .ok d := by
    rw [Config.loadGraph_eq, hloaded]
    exact hd
  unfold compileGraph
  simp only [hgraph, h]
  exact ⟨_, rfl⟩

theorem compileGraph_of_error [Stack] (hloaded : Config.loadConfigs files configDir name = .ok configs)
    (h : Compiler.compileMerged {} name configs = .error e) :
    ∃ log, compileGraph printer files configDir name = failed name log e := by
  unfold compileGraph
  rw [Config.loadGraph_eq, hloaded]
  rcases Except.bind_eq_error.1 h with h | ⟨d, hd, h⟩
  · exact ⟨_, by simp only [bind, Except.bind, h]; rfl⟩
  · exact ⟨_, by simp only [bind, Except.bind, hd, h]; rfl⟩

/-- The code is printed, or the command fails with what prints it. -/
theorem printed_cases (printer : Printer) (log : List Record) (code : Text) :
    printer code = .ok () ∧ (printed printer log code).exit = .ok 0 ∧ (printed printer log code).output = code ∨
      ∃ e, printer code = .error e ∧ (printed printer log code).exit = .error e ∧
        (printed printer log code).output = "" := by
  unfold printed
  cases printer code with
  | ok _ => exact .inl ⟨rfl, rfl, rfl⟩
  | error e => exact .inr ⟨e, rfl, rfl, rfl⟩

theorem failed_of_reported [Stack] (graph : String) (log : List Record) (h : isReported e) :
    (failed graph log e).exit = .ok 1 ∧ (failed graph log e).output = "" := by
  unfold failed
  rw [if_pos h]
  exact ⟨rfl, rfl⟩

theorem failed_of_not_reported [Stack] (graph : String) (log : List Record) (h : ¬isReported e) :
    (failed graph log e).exit = .error e ∧ (failed graph log e).output = "" := by
  unfold failed
  rw [if_neg h]
  exact ⟨rfl, rfl⟩

end Command

namespace Compiler

/-- Merging and compiling files, whatever they hold, fails without being reported
exactly when it strays, which happens in these places only. So the command, once it
has loaded the files of a graph, ends with exit code 0 and the code of the effect as
its output, or with exit code 1 and no output, or it fails itself, with no output and
the error that strayed or that of what prints the code. What prints bytes refuses the
codes with a half of a pair in them. -/
theorem compileMerged_error_iff [Stack] (hoist : Bool) (name : String) (configs : List Config.GraphConfig) :
    (∀ e, Compiler.compileMerged { hoist := hoist } name configs = .error e ∧ ¬Command.isReported e ↔
        Strays { hoist := hoist } name configs e) ∧
      (∀ e, Strays { hoist := hoist } name configs e → e.kind ∈ [.mistyped, .overflow, .recursion]) ∧
      (∀ printer files configDir, Config.loadConfigs files configDir name = .ok configs →
        let report := Command.compileGraph printer files configDir name
        (∃ effect, Compiler.compileMerged {} name configs = .ok effect ∧
          (printer effect.code = .ok () ∧ report.exit = .ok 0 ∧ report.output = effect.code ∨
            ∃ e, printer effect.code = .error e ∧ report.exit = .error e ∧ report.output = "")) ∨
        (∃ e, Compiler.compileMerged {} name configs = .error e ∧ Command.isReported e ∧
          report.exit = .ok 1 ∧ report.output = "") ∨
        ∃ e, Strays {} name configs e ∧ report.exit = .error e ∧ report.output = "") ∧
      ∀ code, Printer.ofBytes code = .ok () ↔ ∀ g ∈ code.glyphs, ∃ c, g = .char c := by
  refine ⟨fun e => ⟨fun ⟨h, hreported⟩ => ?_, fun h => ⟨h.compileMerged_eq rfl rfl, Command.not_isReported h.kind⟩⟩,
    fun e h => h.kind, fun printer files configDir hloaded => ?_, fun code => Printer.ofBytes_eq_ok_iff⟩
  · exact (compileMerged_error rfl rfl h).resolve_left hreported
  · cases h : Compiler.compileMerged {} name configs with
    | ok effect =>
      obtain ⟨log, hreport⟩ := Command.compileGraph_of_ok printer hloaded h
      rw [hreport]
      exact .inl ⟨effect, rfl, Command.printed_cases printer log effect.code⟩
    | error e =>
      obtain ⟨log, hreport⟩ := Command.compileGraph_of_error printer hloaded h
      rw [hreport]
      rcases compileMerged_error rfl rfl h with hreported | hstrays
      · exact .inr (.inl ⟨e, rfl, hreported, Command.failed_of_reported name log hreported⟩)
      · exact .inr (.inr ⟨e, hstrays, Command.failed_of_not_reported name log (Command.not_isReported hstrays.kind)⟩)

/-- A floating origin whose offset is one number where three belong. -/
def scalarOffset : ModifierDef where
  type := "FloatingOrigin"
  params := [(.str "offset", .int 5)]

/-- A file with that modifier. -/
def scalarOffsetFile : Config.GraphConfig where
  name := "default"
  modifiers := [scalarOffset]

/-- A file with an attribute that is named by a list. -/
def listedAttributeFile : Config.GraphConfig where
  name := "default"
  nodes := [{ id := "age", type := "Attribute", params := [(.str "attribute", .list [.str "age"])] }]

/-- A float property whose integer is beyond all floats. -/
def hugeProperty : Config.PropertyConfig where
  name := "size"
  value := .int (10 ^ 400)
  type := some "f32"

/-- A file with that property. -/
def hugePropertyFile : Config.GraphConfig where
  name := "default"
  properties := [hugeProperty]

theorem strays_hugePropertyFile [Stack] : Config.Strays "default" [hugePropertyFile] .intTooLarge := by
  have hsplit : [hugePropertyFile] = [] ++ hugePropertyFile :: [] := rfl
  have hproperties : hugePropertyFile.properties = [] ++ hugeProperty :: [] := rfl
  have htype : ValueType.ofName "f32" = .ok (.scalar .f32) := Except.toOption_eq_some.1 (by decide +kernel)
  have hlarge : Binary64.ofInt? (10 ^ 400) = none := Option.isNone_iff_eq_none.1 (by decide +kernel)
  exact .property hsplit rfl rfl hproperties rfl rfl rfl (.scalar htype (.large (by decide) hlarge))

/-- A file with an output that is called by a half of a pair. -/
def halfNameFile : Config.GraphConfig where
  name := "default"
  nodes := [{ id := "now", type := "Time" }]
  outputs := [⟨⟨[.half 0]⟩, "now.time"⟩]

open scoped EffectGraph.Stack.Usual in
/-- An offset, an attribute and a property that stray: the error of each is none of
those that are reported. Nor is the error of printing the code in bytes where an output
is called by a half of a pair. -/
theorem compileMerged_strays :
    (Compiler.compileMerged {} "default" [scalarOffsetFile] = .error (.notUnpackable "int") ∧
      ¬Command.isReported (.notUnpackable "int")) ∧
    (Compiler.compileMerged {} "default" [listedAttributeFile] = .error (.unkeyable "list") ∧
      ¬Command.isReported (.unkeyable "list")) ∧
    (Compiler.compileMerged {} "default" [hugePropertyFile] = .error .intTooLarge ∧
      ¬Command.isReported .intTooLarge) ∧
    ∃ effect e, Compiler.compileMerged {} "default" [halfNameFile] = .ok effect ∧
      Printer.ofBytes effect.code = .error e ∧ ¬Command.isReported e := by
  have hoffset : Compiler.compileMerged {} "default" [scalarOffsetFile] = .error (.notUnpackable "int") := by
    have hd : Config.merge "default" [scalarOffsetFile] =
        .ok { name := "default", modifiers := [] ++ scalarOffset :: [] } := by
      cbv
    have hcode : (Compiler.compile {} { name := "default" }).toOption.map (·.code) = some ("" : Text) := by
      cbv
    simp only [Option.map_eq_some_iff, Except.toOption_eq_some] at hcode
    obtain ⟨effect, heffect, -⟩ := hcode
    have hstrays : Modifier.Strays [] scalarOffset (.notUnpackable (Data.int 5).fullKind) := .whole rfl rfl rfl rfl
    exact Strays.compileMerged_eq rfl rfl (.modifier hd rfl heffect hstrays)
  have hattribute : Compiler.compileMerged {} "default" [listedAttributeFile] = .error (.unkeyable "list") := by
    have hd : Config.merge "default" [listedAttributeFile] =
        .ok { name := "default", nodes := listedAttributeFile.nodes } := by
      cbv
    have he : Compiler.compile {} { name := "default", nodes := listedAttributeFile.nodes } =
        .error (.unkeyable "list") := by
      cbv
    exact Except.bind_eq_error.2 (.inr ⟨_, hd, he⟩)
  have hproperty : Compiler.compileMerged {} "default" [hugePropertyFile] = .error .intTooLarge :=
    Strays.compileMerged_eq rfl rfl (.merge strays_hugePropertyFile)
  have hprinted : (Compiler.compileMerged {} "default" [halfNameFile]).toOption.map (fun f => Printer.ofBytes f.code) =
      some (.error (.unencodable (.half 0) 1 4)) := by
    cbv
  simp only [Option.map_eq_some_iff, Except.toOption_eq_some] at hprinted
  obtain ⟨effect, heffect, hrefused⟩ := hprinted
  exact ⟨⟨hoffset, by decide⟩, ⟨hattribute, by decide⟩, ⟨hproperty, by decide⟩, effect, _, heffect, hrefused, by decide⟩

end Compiler

end EffectGraph
