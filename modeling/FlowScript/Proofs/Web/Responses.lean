import FlowScript.Proofs.Json.Data
import FlowScript.Proofs.Json.Reader
import FlowScript.Proofs.Text.Lines
import FlowScript.Web.Server

/-!
# What responses say

A client reads the members of a response in JSON. What the server put into a response is what comes
out, and the answers with which requests are refused have a status of an error.

## Main results

- `Response.text?_json` — a client finds a text under the name that it was written under
- `status_of_withBody` — a body that cannot be read is answered with an error
- `assetResponse_of_path` — there is no asset where flows are posted
-/

namespace FlowScript.Json

open Text

/-! ## The parts of responses -/

variable {level : Nat}

theorem fits_text (s : String) (h : level ≤ maxDepth) : (Tree.text s).Fits maxDepth level :=
  ⟨wellFormed_text s, h⟩

theorem fits_int (n : Int) (h : level ≤ maxDepth) : (Tree.int n).Fits maxDepth level :=
  ⟨wellFormed_int n, h⟩

theorem fits_texts (items : List String) (h : level < maxDepth) :
    (Tree.texts items).Fits maxDepth level := by
  refine fits_array h ?_
  intro t ht
  obtain ⟨s, -, rfl⟩ := List.mem_map.mp ht
  exact fits_text s h

theorem fits_record {members : List (String × Tree)} (hlevel : level < maxDepth)
    (h : ∀ m ∈ members, m.2.Fits maxDepth (level + 1)) :
    (Tree.record members).Fits maxDepth level := by
  refine fits_object hlevel ?_
  intro m hm
  obtain ⟨member, hmember, rfl⟩ := List.mem_map.mp hm
  exact ⟨isBody_escape .plain member.1.toList, h member hmember⟩

theorem fits_textUnlessEmpty (key s : String) (h : level ≤ maxDepth) :
    ∀ m ∈ textUnlessEmpty key s, m.2.Fits maxDepth level := by
  unfold textUnlessEmpty
  split
  · simp
  · simpa using fits_text s h

/-- A list of documents, each written from an item. -/
theorem fits_map {α : Type} {write : α → Tree} (items : List α) (hlevel : level < maxDepth)
    (h : ∀ a, (write a).Fits maxDepth (level + 1)) :
    (Tree.array (items.map write)).Fits maxDepth level := by
  refine fits_array hlevel ?_
  intro t ht
  obtain ⟨a, -, rfl⟩ := List.mem_map.mp ht
  exact h a

end FlowScript.Json

namespace FlowScript

open Json

theorem Diagnostic.fits_toTree (d : Diagnostic) {level : Nat} (h : level < maxDepth) :
    d.toTree.Fits maxDepth level := by
  refine fits_record h ?_
  intro m hm
  simp only [List.cons_append, List.nil_append, List.mem_cons, List.mem_append, List.not_mem_nil,
    or_false] at hm
  rcases hm with rfl | rfl | (hm | hm) | rfl
  · exact fits_text _ h
  · exact fits_text _ h
  · exact fits_textUnlessEmpty _ _ h m hm
  · exact fits_textUnlessEmpty _ _ h m hm
  · exact fits_text _ h

theorem Issue.fits_toTree (i : Issue) {level : Nat} (h : level < maxDepth) :
    i.toTree.Fits maxDepth level := by
  refine fits_record h ?_
  intro m hm
  simp only [List.cons_append, List.nil_append, List.mem_cons, List.mem_append, List.not_mem_nil,
    or_false] at hm
  rcases hm with rfl | ((hm | hm) | hm) | rfl
  · exact fits_text _ h
  · exact fits_textUnlessEmpty _ _ h m hm
  · exact fits_textUnlessEmpty _ _ h m hm
  · exact fits_textUnlessEmpty _ _ h m hm
  · exact fits_text _ h

theorem Figure.fits_toTree (f : Figure) {level : Nat} (h : level < maxDepth) :
    f.toTree.Fits maxDepth level := by
  refine fits_record h ?_
  intro m hm
  simp only [List.mem_cons, List.not_mem_nil, or_false] at hm
  rcases hm with rfl | rfl
  · exact fits_int _ h
  · exact fits_text _ h

theorem Output.fits_toTree (o : Output) {level : Nat} (h : level + 2 < maxDepth) :
    o.toTree.Fits maxDepth level := by
  refine fits_record (by omega) ?_
  intro m hm
  simp only [List.cons_append, List.nil_append, List.mem_cons] at hm
  rcases hm with rfl | rfl | hm
  · exact fits_texts _ (by omega)
  · exact fits_map _ (by omega) (fun f => f.fits_toTree h)
  · split at hm
    · cases hm
    · obtain rfl := List.mem_singleton.mp hm
      exact fits_texts _ (by omega)

theorem Run.fits_toTree (r : Run) {level : Nat} (h : level + 3 < maxDepth) :
    r.toTree.Fits maxDepth level := by
  refine fits_record (by omega) ?_
  intro m hm
  simp only [List.cons_append, List.nil_append, List.mem_cons, List.mem_append] at hm
  rcases hm with rfl | rfl | hm | hm
  · show Tree.Fits (if r.packages.isEmpty then .null else .texts r.packages) maxDepth _
    split
    · exact ⟨.null, by show level + 1 ≤ maxDepth; omega⟩
    · exact fits_texts _ (by omega)
  · exact r.output.fits_toTree (by omega)
  · exact fits_textUnlessEmpty _ _ (by omega) m hm
  · split at hm
    · cases hm
    · obtain rfl := List.mem_singleton.mp hm
      exact fits_texts _ (by omega)

namespace Web

/-! ## Reading a response -/

/-- The text that a client finds under a name in a response in JSON. -/
def Response.text? (r : Response) (name : String) : Option String :=
  match Json.parse r.body.toList with
  | .ok (.object members) =>
    match members.find? (fun m => String.ofList (unescape m.1) == name) with
    | some (_, .string body) => some (String.ofList (unescape body))
    | _ => none
  | _ => none

/-- A client finds a text under the name that it was written under. -/
theorem Response.text?_json {members : List (String × Tree)} (status : Nat) {name s : String}
    (h : (Tree.record members).Fits maxDepth 0)
    (hfind : members.find? (fun m => m.1 == name) = some (name, .text s)) :
    (Response.json status (.record members)).text? name = some s := by
  have hbody : (Response.json status (.record members)).body.toList =
      (Tree.record members).spaced .escaped .none 0 ++ ['\n'] := by
    rw [spaced_none]
    simp [Response.json]
  have hgap : ∀ c ∈ ['\n'], isGap c = true := List.forall_mem_singleton.mpr rfl
  have hparse : Json.parse (Response.json status (.record members)).body.toList =
      .ok ((Tree.record members).respelled .escaped) := by
    rw [hbody]
    exact parse_spaced h.wellFormed (by simpa using h.depth) .escaped .none 0 hgap
  have hfound : (members.map (fun m => (respell .escaped (escape .plain m.1.toList),
      m.2.respelled .escaped))).find? (fun m => String.ofList (unescape m.1) == name) =
        some (respell .escaped (escape .plain name.toList), (Tree.text s).respelled .escaped) := by
    have hkeys : ((fun m => String.ofList (unescape m.1) == name) ∘ fun m : String × Tree =>
        (respell .escaped (escape .plain m.1.toList), m.2.respelled .escaped)) =
          fun m => m.1 == name := by
      funext m
      simp [unescape_respell_escape]
    rw [List.find?_map, hkeys, hfind, Option.map_some]
  rw [Response.text?, hparse, Tree.record, Tree.respelled, respelledMembers_eq_map, List.map_map]
  simp only [Function.comp_def, hfound, Tree.text, Tree.respelled, unescape_respell_escape]

/-! ## Refusals -/

/-- A body that cannot be read is answered with an error. -/
theorem status_of_withBody {α : Type} {r : Request} {read : Written → Except DocumentError α}
    {what : String} {refusal : Response} (h : withBody r read what = .error refusal) :
    400 ≤ refusal.status := by
  unfold withBody at h
  split at h
  · obtain rfl : wrongType = refusal := Except.error.inj h
    exact Nat.le_add_right 400 15
  · cases hread : readBody read r.body with
    | ok a => rw [hread] at h; cases h
    | error e =>
      rw [hread] at h
      obtain rfl := Except.error.inj h
      exact Nat.le_refl 400

/-- Only a body that is declared as JSON is read. -/
theorem isJsonType_of_withBody {α : Type} {r : Request} {read : Written → Except DocumentError α}
    {what : String} {a : α} (h : withBody r read what = .ok a) :
    isJsonType (r.header "Content-Type") = true := by
  unfold withBody at h
  split at h
  · cases h
  case isFalse hjson => simpa using hjson

/-! ## Paths -/

/-- The path under which flows are posted to be compiled. -/
def compilePath : String := "/api/compile"

/-- The path under which flows are posted to be run. -/
def runPath : String := "/api/run"

/-- There is no asset where flows are posted. -/
theorem assetResponse_of_path {r : Request} (h : r.path = compilePath ∨ r.path = runPath) :
    assetResponse r = notFound := by
  unfold assetResponse
  rcases h with h | h <;> rw [h] <;> rfl

theorem eq_of_splitAt {s t : String} (h : splitAt '/' s = splitAt '/' t) : s = t := by
  have hpieces : Text.cut '/' s.toList = Text.cut '/' t.toList :=
    List.map_injective_iff.mpr (fun _ _ => String.ofList_injective) h
  rw [← String.toList_inj, ← Text.glue_cut '/' s.toList, hpieces, Text.glue_cut]

/-- A flow is run for what is posted under one path. -/
theorem Route.of_eq_run {method path : String} (h : Route.of method path = .run) :
    method = "POST" ∧ path = runPath := by
  unfold Route.of at h
  split at h
  case h_3 hpath => exact ⟨rfl, eq_of_splitAt hpath⟩
  case h_1 | h_7 => split at h <;> cases h
  all_goals cases h

/-- Where flows are posted there is nothing else. -/
theorem Route.of_path (method : String) {path : String}
    (h : path = compilePath ∨ path = runPath) :
    Route.of method path = .compile ∨ Route.of method path = .run ∨
      Route.of method path = .asset := by
  have hcompile : splitAt '/' compilePath = ["", "api", "compile"] := rfl
  have hrun : splitAt '/' runPath = ["", "api", "run"] := rfl
  rcases h with rfl | rfl
  · simp only [Route.of, hcompile]
    split <;> simp_all
  · simp only [Route.of, hrun]
    split <;> simp_all

end Web

end FlowScript
