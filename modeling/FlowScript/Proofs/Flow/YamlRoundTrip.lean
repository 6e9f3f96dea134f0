import FlowScript.Proofs.Flow.YamlFits
import FlowScript.Proofs.Script.Alike
import FlowScript.Proofs.Yaml.Evaluation

/-!
# What a flow loses in YAML

A flow that JSON keeps is kept by YAML exactly when the documents in its previews and its sizes and
counts pass through data unchanged: numbers are spelled as double precision numbers print, the members
of objects stand in the order of their keys, and strings hold no lone surrogate.

## Main definitions

- `Flow.KeptByYaml` — a flow comes back from YAML and gives the same script

## Main results

- `Flow.keptByYaml_iff_settled` — what YAML keeps of the flow that comes back from JSON
-/

namespace FlowScript

open Json Text Script

variable {yaml : Yaml.Library}

/-- What comes back of a flow from YAML is the given flow but for the escapes in rows, and is compiled
to the same script but for the escapes in the literals of rows. -/
def Flow.KeptByYaml (yaml : Yaml.Library) (f g : Flow) : Prop :=
  ∃ text g', f.encodeWith yaml .yaml = .ok text ∧ Flow.decodeWith yaml text .yaml = .ok g' ∧
    g.Alike g' ∧
    ∀ clock, SameScript (g.compile clock).1.normalized.script (g'.compile clock).1.normalized.script

theorem Flow.keptByYaml_stored_iff {f : Flow} (h : f.Storable) (hfinite : f.IsFinite)
    (hyaml : f.ComesBackFromYaml yaml) : f.KeptByYaml yaml f.stored ↔ f.Settled := by
  constructor
  · rintro ⟨text, g, hencode, hdecode, halike, -⟩
    have hfits := Flow.fits_of_decode_encode_yaml h hfinite hyaml hencode hdecode
    obtain ⟨text', hencode', hdecode'⟩ := Flow.decode_encode_yaml h hfinite hfits hyaml
    obtain rfl := Except.ok.inj (hencode'.symm.trans hencode)
    obtain rfl := Except.ok.inj (hdecode'.symm.trans hdecode)
    exact (Flow.alike_iff_settled h hfits).mp halike
  · intro hsettled
    obtain ⟨text, hencode, hdecode⟩ := Flow.decode_encode_yaml h hfinite hsettled.fits hyaml
    have halike := (Flow.alike_iff_settled h hsettled.fits).mpr hsettled
    exact ⟨text, _, hencode, hdecode, halike, halike.sameScript_compile⟩

/-- A flow that comes back from JSON comes back from YAML as the same flow exactly when its previews,
sizes and counts are settled, whatever library reads and prints its data. -/
theorem Flow.keptByYaml_iff_settled {f : Flow} (h : f.Storable) (hfinite : f.IsFinite)
    (hyaml : f.ComesBackFromYaml yaml) :
    ∃ text g, f.encode .json = .ok text ∧ Flow.decode text .json = .ok g ∧
      (f.KeptByYaml yaml g ↔ f.Settled) := by
  obtain ⟨text, hencode, hdecode⟩ := h.exists_json hfinite
  exact ⟨text, _, hencode, hdecode, Flow.keptByYaml_stored_iff h hfinite hyaml⟩

/-! ## Flows that are kept and that are not -/

/-- The document of a flow, its members in the order in which they stand, is read back. -/
def Flow.isReadBack (f : Flow) : Bool :=
  match f.toTree with
  | .error _ => true
  | .ok t =>
    match Value.ofTree t with
    | .error _ => true
    | .ok v =>
      Yaml.isOrdered v &&
        match Yaml.read (Yaml.lines 0 true v) with
        | .ok d => v.comesBackAs d
        | .error _ => false

theorem Flow.comesBackFromYaml_of_isReadBack {f : Flow} (h : f.isReadBack = true) :
    f.ComesBackFromYaml Yaml.library := by
  intro t v ht hv
  simp only [isReadBack, ht, hv, Bool.and_eq_true] at h
  obtain ⟨hordered, hread⟩ := h
  show ∃ d, Yaml.read (Yaml.render v) = .ok d ∧ v.comesBackAs d = true
  rw [Yaml.render, Yaml.ordered_eq_self hordered]
  cases hd : Yaml.read (Yaml.lines 0 true v) with
  | ok d =>
    rw [hd] at hread
    exact ⟨d, rfl, hread⟩
  | error fault =>
    rw [hd] at hread
    cases hread

/-- A tabular input whose preview has the given rows. -/
def ledgerNode (rows : List Char) : Node where
  kind := .csvInput
  payload := some (.file { preview := some { rowCount := 1, rows := some rows } })

/-- A flow with one tabular input. -/
def ledgerFlow (rows : List Char) : Flow where
  nodes := [some (ledgerNode rows)]

theorem ledgerFlow_storable {rows : List Char} {t : Tree} (h : Spells rows t)
    (hdepth : (ledgerFlow rows).toTree.toOption.map Tree.depth = some 7) :
    (ledgerFlow rows).Storable := by
  have hzero : Double.ReadsBack .zero := by decide +kernel
  have hcount : IsInt64 0 ∧ IsInt64 1 := by decide
  refine ⟨rfl, rfl, ?_, hzero, hzero, hzero, ?_⟩
  · intro n hn
    obtain rfl := Option.some.inj (List.mem_singleton.mp hn)
    refine ⟨⟨_, rfl, rfl, hcount.1, ?_⟩, hzero, hzero, by simp [ledgerNode]⟩
    rintro p ⟨⟩
    refine ⟨hcount.2, ?_⟩
    rintro rows ⟨⟩
    exact ⟨t, h⟩
  · intro u hu
    rw [hu] at hdepth
    have hseven : u.depth = 7 := Option.some.inj hdepth
    rw [hseven, maxDepth]
    omega

theorem ledgerFlow_finite (rows : List Char) : (ledgerFlow rows).IsFinite where
  nodes := by
    intro n hn
    obtain rfl := Option.some.inj (List.mem_singleton.mp hn)
    exact ⟨trivial, trivial⟩
  x := trivial
  y := trivial
  zoom := trivial

/-- A row whose numbers and members pass through data unchanged. -/
def tidyRows : List Char :=
  "[\x7b\"a\":1,\"b\":2.5\x7d]".toList

/-- A row with its members out of order and a number between two double precision numbers. -/
def wideRows : List Char :=
  "[\x7b\"b\":9007199254740993,\"a\":1\x7d]".toList

theorem tidyLedger_settled : (ledgerFlow tidyRows).Settled := by
  have hone : Tree.Settled (.number ['1']) :=
    .number (x := ⟨false, 4503599627370496, -52⟩) rfl (by decide +kernel)
  have htwo : Tree.Settled (.number ['2', '.', '5']) :=
    .number (x := ⟨false, 5629499534213120, -51⟩) rfl (by decide +kernel)
  have hrow : Tree.Settled
      (.object [(['a'], .number ['1']), (['b'], .number ['2', '.', '5'])]) := by
    refine .object ?_ (by decide +kernel) (by simp [hone, htwo])
    simp only [List.forall_mem_cons]
    decide +kernel
  intro n hn d hd
  obtain rfl := Option.some.inj (List.mem_singleton.mp hn)
  obtain rfl := Payload.file.inj (Option.some.inj hd)
  refine ⟨by decide +kernel, ?_⟩
  rintro p ⟨⟩
  refine ⟨by decide +kernel, ?_⟩
  rintro rows ⟨⟩ t ht
  have hspells : Spells tidyRows
      (.array [.object [(['a'], .number ['1']), (['b'], .number ['2', '.', '5'])]]) := rfl
  obtain rfl := Except.ok.inj (ht.symm.trans hspells)
  exact .array (by simp [hrow])

/-- The tidy row is kept. -/
theorem tidyLedger_kept : (ledgerFlow tidyRows).Storable ∧ (ledgerFlow tidyRows).IsFinite ∧
    (ledgerFlow tidyRows).ComesBackFromYaml Yaml.library ∧ (ledgerFlow tidyRows).Settled ∧
    ∃ text g, (ledgerFlow tidyRows).encode .json = .ok text ∧ Flow.decode text .json = .ok g ∧
      (ledgerFlow tidyRows).KeptByYaml Yaml.library g := by
  have hspells : Spells tidyRows _ := rfl
  have hstorable := ledgerFlow_storable hspells (by decide +kernel)
  have hfinite := ledgerFlow_finite tidyRows
  have hread : (ledgerFlow tidyRows).isReadBack = true := by
    simp only [Flow.isReadBack, Yaml.read_eq_listed]
    decide +kernel
  have hyaml := Flow.comesBackFromYaml_of_isReadBack hread
  obtain ⟨text, g, hencode, hdecode, hiff⟩ := Flow.keptByYaml_iff_settled hstorable hfinite hyaml
  exact ⟨hstorable, hfinite, hyaml, tidyLedger_settled, text, g, hencode, hdecode,
    hiff.mpr tidyLedger_settled⟩

theorem spells_wideRows : Spells wideRows (.array
    [.object [(['b'], .number "9007199254740993".toList), (['a'], .number ['1'])]]) := rfl

theorem wideLedger_fits : (ledgerFlow wideRows).Fits := by
  intro n hn d hd
  obtain rfl := Option.some.inj (List.mem_singleton.mp hn)
  obtain rfl := Payload.file.inj (Option.some.inj hd)
  refine ⟨by decide +kernel, ?_⟩
  rintro p ⟨⟩
  refine ⟨by decide +kernel, ?_⟩
  rintro rows ⟨⟩ t ht
  obtain rfl := Except.ok.inj (ht.symm.trans spells_wideRows)
  exact ⟨_, _, rfl, rfl⟩

theorem wideLedger_not_settled : ¬ (ledgerFlow wideRows).Settled := by
  intro h
  have hfile := h _ (List.mem_singleton.mpr rfl) _ rfl
  have hrows := (hfile.preview _ rfl).rows _ rfl _ spells_wideRows
  rcases hrows with (_ | _ | _ | _ | hrow)
  rcases hrow _ (List.mem_singleton.mpr rfl) with (_ | _ | _ | _ | _ | ⟨-, hsorted, -⟩)
  exact absurd hsorted (by decide +kernel)

/-- The wide row comes back from JSON as it was, on lines of its own, and from YAML with another number
and its members in another order. -/
theorem wideLedger_not_kept : (ledgerFlow wideRows).Storable ∧ (ledgerFlow wideRows).IsFinite ∧
    (ledgerFlow wideRows).ComesBackFromYaml Yaml.library ∧
    (∃ text g, (ledgerFlow wideRows).encode .json = .ok text ∧ Flow.decode text .json = .ok g ∧
      g.rows = [("[\n            \x7b\n              \"b\": 9007199254740993,"
        ++ "\n              \"a\": 1\n            \x7d\n          ]").toList] ∧
      ¬ (ledgerFlow wideRows).KeptByYaml Yaml.library g) ∧
    ∃ text g, (ledgerFlow wideRows).encode .yaml = .ok text ∧ Flow.decode text .yaml = .ok g ∧
      g.rows = ["[\x7b\"a\":1,\"b\":9007199254740992\x7d]".toList] := by
  have hstorable := ledgerFlow_storable spells_wideRows (by decide +kernel)
  have hfinite := ledgerFlow_finite wideRows
  have hread : (ledgerFlow wideRows).isReadBack = true := by
    simp only [Flow.isReadBack, Yaml.read_eq_listed]
    decide +kernel
  have hyaml := Flow.comesBackFromYaml_of_isReadBack hread
  obtain ⟨text, hencode, hdecode⟩ := hstorable.exists_json hfinite
  obtain ⟨text', hencode', hdecode'⟩ :=
    Flow.decode_encode_yaml hstorable hfinite wideLedger_fits hyaml
  refine ⟨hstorable, hfinite, hyaml, ⟨text, _, hencode, hdecode, by decide +kernel, ?_⟩,
    text', _, hencode', hdecode', by decide +kernel⟩
  rw [Flow.keptByYaml_stored_iff hstorable hfinite hyaml]
  exact wideLedger_not_settled

end FlowScript
