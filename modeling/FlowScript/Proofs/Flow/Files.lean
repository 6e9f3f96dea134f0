import FlowScript.Proofs.Run.Repeated
import FlowScript.Session.Pass

/-!
# Flow files beside figures

The flow files that a path stands for can be read, and they can be read as long as runs write nothing
but figures: the name of a figure has an extension that implies no format of flows.

## Main results

- `exists_entry_of_mem_targets` — the flow files that are found can be read
- `Workspace.entry_of_unspoilt`, `Workspace.entry_of_stuck` — runs do not change what is loaded
-/

namespace FlowScript

open Text

/-! ## Extensions -/

/-- The extension of a path is that of its last segment. -/
theorem extension_of_splitAt {path last : String} {front : List String}
    (h : splitAt '/' path = front ++ [last]) : extension path = extension last := by
  obtain ⟨front', rest, hcut, -, hrest⟩ := List.map_eq_append_iff.mp h
  obtain ⟨piece, rfl, rfl⟩ := List.map_eq_singleton_iff.mp hrest
  have hfree : ∀ c ∈ piece.reverse, (c != '/') = true := by
    intro c hc
    have hmem : piece ∈ cut '/' path.toList := hcut ▸ List.mem_append_right _ (by simp)
    simpa using cutWhere_free hmem c (List.mem_reverse.mp hc)
  have hback : path.toList.reverse.takeWhile (· != '/') =
      (String.ofList piece).toList.reverse.takeWhile (· != '/') := by
    rw [takeWhile_reverse_of_cut hcut, String.toList_ofList, List.takeWhile_eq_self_iff.mpr hfree]
  rw [extension, extension, hback]

theorem extension_figureName (n : Nat) : extension (figureName n) = ".png" := by
  have hname : (figureName n).toList.reverse =
      ['g', 'n', 'p', '.'] ++ ("figure-" ++ toString n).toList.reverse := by
    simp [figureName]
  simp [extension, hname]

theorem ofPath?_of_extension {path path' : String} (h : extension path = extension path') :
    Format.ofPath? path = Format.ofPath? path' := by
  rw [Format.ofPath?, Format.ofPath?, h]

namespace Workspace

variable {w w' : Workspace} {p q : Location} {path : String}

/-- No path to a flow file leads to a figure. -/
theorem Leads.ne_figure (h : w.Leads path q) (hpath : Format.ofPath? path ≠ none) (n : Nat) :
    q ≠ p ++ [figureName n] := by
  have hne : splitAt '/' path ≠ [] := by simp [splitAt, cut, cutWhere_ne_nil]
  obtain ⟨front, last, hsplit⟩ := (List.eq_nil_or_concat (splitAt '/' path)).resolve_left hne
  rw [List.concat_eq_append] at hsplit
  have hlast : ∀ name, Format.ofPath? name = none → last ≠ name := by
    rintro name hname rfl
    exact hpath ((ofPath?_of_extension (extension_of_splitAt hsplit)).trans hname)
  have hfollow := h.follow
  rw [hsplit] at hfollow
  obtain ⟨r, -, hstep⟩ := follow_concat_eq_ok_iff.mp hfollow
  rw [step_name hstep (hlast "" rfl) (hlast "." rfl) (hlast ".." rfl)]
  intro heq
  have hname : last = figureName n := by simpa using congrArg List.getLast? heq
  refine hlast (figureName n) ?_ hname
  rw [Format.ofPath?, extension_figureName]
  rfl

/-- What can be read at a path that implies a format of flows stays when figures are written. -/
theorem entry_of_unspoilt {dir : String} {content : List UInt8} (h : Unspoilt dir w w')
    (hpath : Format.ofPath? path ≠ none) (hentry : w.entry path = .ok (.file content)) :
    w'.entry path = .ok (.file content) := by
  cases h with
  | start => exact hentry
  | drawn hmade hp hdrawn =>
    -- the path leads past the figures to the same place, and that is none of theirs
    obtain ⟨q, hleads, hq⟩ := entry_eq_ok_iff.mp hentry
    have hgrows := grows_ensureDirectories w dir.toList
    refine entry_eq_ok_iff.mpr
      ⟨q, hleads.mono (hgrows.keepsDirectories.trans hdrawn.directories.keepsDirectories), ?_⟩
    rw [hdrawn.others q (fun n => hleads.ne_figure hpath n)]
    exact hgrows.at?_eq_some hq

theorem entry_of_stuck {dir : String} {e : Entry} (h : Stuck dir w w')
    (hentry : w.entry path = .ok e) : w'.entry path = .ok e := by
  obtain ⟨q, hleads, hq⟩ := entry_eq_ok_iff.mp hentry
  have hgrows := grows_ensureDirectories w dir.toList
  rw [h.eq]
  exact entry_eq_ok_iff.mpr ⟨q, hleads.mono hgrows.keepsDirectories, hgrows.at?_eq_some hq⟩

end Workspace

/-- What is loaded depends on the entry at a path only, and on nothing if no format is implied. -/
theorem load_congr {w w' : Workspace} {path : String} {content : List UInt8}
    (hentry : w.entry path = .ok (.file content))
    (hentry' : Format.ofPath? path ≠ none → w'.entry path = .ok (.file content)) :
    Flow.load w' path = Flow.load w path := by
  unfold Flow.load
  cases hformat : Format.ofPath? path with
  | none => rfl
  | some format =>
    have hread : w'.read path = w.read path := by
      rw [Workspace.read, Workspace.read, hentry, hentry' (by simp [hformat])]
    simp only [hread]

/-! ## Finding flow files -/

namespace Workspace

variable {w : Workspace} {p : Location} {path : String}

theorem isName_of_mem_names (h : w.Tidy) {name : String} (hname : name ∈ w.names p) :
    IsName name ∧ name.utf8ByteSize ≤ nameLimit := by
  unfold names at hname
  obtain ⟨entry, hentry, hlast⟩ := List.mem_filterMap.mp (List.mem_mergeSort.mp hname)
  split at hlast
  case isTrue hplace =>
    obtain ⟨-, hroot⟩ := Bool.and_eq_true_iff.mp hplace
    exact ((h entry hentry).resolve_left (by simpa using hroot)).1 name hlast
  case isFalse => cases hlast

/-- The flow files below a directory can be read. -/
theorem exists_entry_of_mem_flowFilesWithin (h : w.Tidy) {depth : Nat} {found : String}
    (hdir : w.LeadsToDirectory path p) (hfound : found ∈ w.flowFilesWithin depth p path) :
    ∃ content, w.entry found = .ok (.file content) := by
  induction depth generalizing p path with
  | zero => cases hfound
  | succ depth ih =>
    rw [flowFilesWithin] at hfound
    obtain ⟨name, hname, hfound⟩ := List.mem_flatMap.mp hfound
    obtain ⟨hisName, hsize⟩ := isName_of_mem_names h hname
    have hleads := hdir.leads.join hdir.at?_eq hisName hsize
    dsimp only at hfound
    split at hfound
    case h_1 hentry =>
      split at hfound
      · cases hfound
      · exact ih ⟨hleads, hentry⟩ hfound
    case h_2 content hentry =>
      split at hfound
      · obtain rfl := List.mem_singleton.mp hfound
        exact ⟨content, entry_eq_ok_iff.mpr ⟨_, hleads, hentry⟩⟩
      · cases hfound
    case h_3 => cases hfound

end Workspace

/-- The flow files that a path stands for can be read. -/
theorem exists_entry_of_mem_targets {w : Workspace} (h : w.Tidy) {path found : String}
    {paths : List String} (htargets : PassSettings.targets w path = .ok paths)
    (hfound : found ∈ paths) : ∃ content, w.entry found = .ok (.file content) := by
  unfold PassSettings.targets at htargets
  split at htargets
  · cases htargets
  case h_2 content hentry =>
    obtain rfl := Except.ok.inj htargets
    obtain rfl := List.mem_singleton.mp hfound
    exact ⟨content, hentry⟩
  case h_3 hentry =>
    obtain ⟨p, hleads, hp⟩ := Workspace.entry_eq_ok_iff.mp hentry
    have hfiles : w.flowFiles path = .ok (w.flowFilesWithin (w.entries.length + 1) p path) := by
      rw [Workspace.flowFiles, hentry, hleads.follow]
    rw [hfiles] at htargets
    split at htargets
    case h_1 e he => cases he
    case h_2 => cases htargets
    case h_3 files hne hok =>
      obtain rfl := Except.ok.inj htargets
      obtain rfl := Except.ok.inj hok
      exact Workspace.exists_entry_of_mem_flowFilesWithin h ⟨hleads, hp⟩ hfound

/-- Two flow files in a directory, and a file beside it. -/
def twoFlows : Workspace :=
  { entries := [(["flows"], .directory), (["flows", "a.json"], .file (Utf8.encode "\x7b\x7d".toList)),
      (["flows", "b.json"], .file (Utf8.encode "\x7b\x7d".toList)), (["f"], .file [])] }

theorem targets_twoFlows :
    PassSettings.targets twoFlows "flows" = .ok ["flows/a.json", "flows/b.json"] := by
  have hnames : twoFlows.names ["flows"] = ["a.json", "b.json"] :=
    List.mergeSort_of_pairwise (by decide +kernel)
  have hwithin : twoFlows.flowFilesWithin 5 ["flows"] "flows" = ["flows/a.json", "flows/b.json"] := by
    rw [Workspace.flowFilesWithin, hnames]
    decide +kernel
  have hentry : twoFlows.entry "flows" = .ok .directory := rfl
  have hfollow : twoFlows.follow (Workspace.start "flows") (splitAt '/' "flows") =
      .ok ["flows"] := rfl
  have hfiles : twoFlows.flowFiles "flows" = .ok ["flows/a.json", "flows/b.json"] := by
    rw [Workspace.flowFiles, hentry, hfollow]
    exact congrArg Except.ok hwithin
  simp only [PassSettings.targets, hentry, hfiles]

end FlowScript
