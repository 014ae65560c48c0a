import ArrowCircuit.Files.Tree
import Mathlib.Data.List.Basic

/-!
# Contents of files

What the operations on a tree do to the contents of its files.  A file gets a content only where it is
written: making directories leaves every content as it is, and a write changes that of its own path.
-/

namespace ArrowCircuit

/-! ## Paths -/

namespace Path

theorem resolve_append (p : Path) (names : List String) (h : ".." ∉ names) :
    resolve { p with parts := p.parts ++ names } = p.resolve ++ names := by
  have hstep : ∀ acc : List String,
      names.foldl (fun acc part => if part = ".." then acc.drop 1 else part :: acc) acc =
        names.reverse ++ acc := by
    induction names with
    | nil => exact fun acc => rfl
    | cons name rest ih =>
        intro acc
        have hname : name ≠ ".." := fun heq => h (heq ▸ List.mem_cons_self)
        rw [List.foldl_cons, if_neg hname, ih fun hmem => h (List.mem_cons_of_mem _ hmem),
          List.reverse_cons, List.append_assoc]
        rfl
  simp only [resolve, List.foldl_append, hstep, List.reverse_append, List.reverse_reverse]
  split
  · rfl
  · rfl

/-- The names of a path are those of its parent and its own. -/
theorem resolve_of_name {p : Path} {name : String} (h : p.name = name) (hname : name ≠ "")
    (hup : name ≠ "..") : p.resolve = p.parent.resolve ++ [name] := by
  rw [Path.name, List.getLastD_eq_getLast?] at h
  have hlast : p.parts.getLast? = some name := by
    cases hp : p.parts.getLast? with
    | none =>
        rw [hp] at h
        exact absurd h.symm hname
    | some last =>
        rw [hp] at h
        exact congrArg some h
  have hparts : p.parent.parts ++ [name] = p.parts :=
    List.dropLast_append_getLast? name hlast
  calc p.resolve = resolve { p.parent with parts := p.parent.parts ++ [name] } := by
        rw [hparts]
        rfl
    _ = p.parent.resolve ++ [name] := resolve_append _ _ (by simpa using hup.symm)

/-- A text that is the name of a file or directory, and of nothing else. -/
abbrev Plain (name : String) : Prop := ofString name = ⟨false, [name]⟩ ∧ name ≠ ".."

variable {name : String} (h : Plain name)

include h

theorem resolve_join (p : Path) : (p.join name).resolve = p.resolve ++ [name] := by
  rw [join, h.1]
  exact resolve_append p [name] (by simpa using h.2.symm)

theorem parent_join (p : Path) : (p.join name).parent = p := by
  rw [join, h.1]
  simp only [parent, Bool.false_eq_true, if_false, List.dropLast_concat]

/-- Files of different names are different. -/
theorem resolve_join_ne {names : List String} (hname : names.getLast? ≠ some name) (p : Path) :
    (p.join name).resolve ≠ names := by
  rintro rfl
  rw [resolve_join h, List.getLast?_concat] at hname
  exact hname rfl

end Path

namespace FileTree

/-! ## Nodes -/

theorem lookup_cons_ite (other key : List String) (node : FileNode)
    (rest : List (List String × FileNode)) :
    List.lookup other ((key, node) :: rest) =
      if other = key then some node else List.lookup other rest := by
  by_cases h : other = key
  · rw [List.lookup_cons, beq_iff_eq.mpr h, if_pos h]
  · rw [List.lookup_cons, beq_eq_false_iff_ne.mpr h, if_neg h]

theorem lookup_map_put (entries : List (List String × FileNode)) (names other : List String)
    (node : FileNode) :
    (entries.map fun e => if e.1 = names then (names, node) else e).lookup other =
      if other = names then (entries.lookup names).map fun _ => node else entries.lookup other := by
  induction entries with
  | nil => simp
  | cons entry rest ih =>
      obtain ⟨key, old⟩ := entry
      have hhead : (if key = names then (names, node) else (key, old)) =
          (key, if key = names then node else old) := by
        by_cases hkey : key = names
        · rw [if_pos hkey, if_pos hkey, hkey]
        · rw [if_neg hkey, if_neg hkey]
      rw [List.map_cons, hhead, lookup_cons_ite, lookup_cons_ite, lookup_cons_ite, ih]
      grind

/-- A node is put under its own names only. -/
theorem lookup_put (t : FileTree) (names other : List String) (node : FileNode) :
    (t.put names node).lookup other =
      if other = names ∧ names ≠ [] ∧ names ≠ ["/"] then some node else t.lookup other := by
  have hentries : (t.put names node).entries.lookup other =
      if other = names then some node else t.entries.lookup other := by
    rw [put]
    split
    · rename_i hany
      -- the names have a node, which is replaced
      obtain ⟨old, hold⟩ : ∃ old, t.entries.lookup names = some old := by
        rw [← Option.isSome_iff_exists, List.lookup_isSome_iff]
        obtain ⟨entry, hentry, hkey⟩ := List.any_eq_true.mp hany
        exact ⟨entry, hentry, beq_iff_eq.mpr (of_decide_eq_true hkey).symm⟩
      rw [lookup_map_put, hold, Option.map_some]
    · rename_i hany
      -- the names have no node, and get one behind the others
      have hnone : t.entries.lookup names = none := by
        rw [List.lookup_eq_none_iff]
        intro entry hentry
        refine bne_iff_ne.mpr fun heq => hany (List.any_eq_true.mpr ⟨entry, hentry, ?_⟩)
        exact decide_eq_true heq.symm
      rw [List.lookup_append, lookup_cons_ite, List.lookup_nil]
      by_cases hother : other = names
      · rw [if_pos hother, if_pos hother, hother, hnone, Option.none_or]
      · rw [if_neg hother, if_neg hother, Option.or_none]
  rw [lookup, lookup, hentries]
  by_cases hroot : other = [] ∨ other = ["/"]
  · rw [if_pos hroot, if_pos hroot, if_neg]
    rintro ⟨rfl, hnil, hslash⟩
    exact hroot.elim hnil hslash
  · rw [if_neg hroot, if_neg hroot]
    obtain ⟨hnil, hslash⟩ := not_or.mp hroot
    by_cases hother : other = names
    · rw [if_pos hother, if_pos ⟨hother, hother ▸ hnil, hother ▸ hslash⟩]
    · rw [if_neg hother, if_neg fun h => hother h.1]

/-! ## Contents -/

/-- The content of the file under a list of names. -/
def content? (t : FileTree) (names : List String) : Option Bytes :=
  match t.lookup names with
  | some (.file content) => some content
  | _ => none

theorem content?_eq_some_iff {t : FileTree} {names : List String} {content : Bytes} :
    t.content? names = some content ↔ t.lookup names = some (.file content) := by
  unfold content?
  split
  · rename_i other h
    rw [h, Option.some.injEq, Option.some.injEq, FileNode.file.injEq]
  · rename_i h
    exact ⟨fun h' => (Option.some_ne_none _ h'.symm).elim, fun h' => (h content h').elim⟩

theorem read_eq_ok_iff {t : FileTree} {p : Path} {content : Bytes} :
    t.read p = .ok content ↔ t.content? p.resolve = some content := by
  rw [content?_eq_some_iff, read]
  split
  · rename_i other h
    rw [h, Except.ok.injEq, Option.some.injEq, FileNode.file.injEq]
  · rename_i h
    simp [h]
  · rename_i h
    simp [h]

theorem content?_congr {t t' : FileTree} {names : List String}
    (h : t'.lookup names = t.lookup names) : t'.content? names = t.content? names := by
  rw [content?, content?, h]

/-- A directory that is put where nothing is hides no file. -/
theorem content?_put_directory {t : FileTree} {names : List String} (h : t.lookup names = none)
    (other : List String) : (t.put names .directory).content? other = t.content? other := by
  by_cases hother : other = names ∧ names ≠ [] ∧ names ≠ ["/"]
  · obtain ⟨rfl, -⟩ := hother
    rw [content?, content?, lookup_put, h]
    split <;> simp_all
  · exact content?_congr (by rw [lookup_put, if_neg hother])

/-- The starting points are directories. -/
theorem lookup_root {t : FileTree} {names : List String} (h : names = [] ∨ names = ["/"]) :
    t.lookup names = some .directory := by
  rw [lookup, if_pos h]

theorem content?_write {t t' : FileTree} {p : Path} {content : Bytes}
    (h : t.write p content = .ok t') (other : List String) :
    t'.content? other = if other = p.resolve then some content else t.content? other := by
  simp only [write] at h
  split at h
  · cases h
  · rename_i hdirectory
    cases h
    have hroot : ¬(p.resolve = [] ∨ p.resolve = ["/"]) := fun hroot =>
      hdirectory (lookup_root hroot)
    by_cases hother : other = p.resolve
    · rw [if_pos hother, content?_eq_some_iff, lookup_put,
        if_pos ⟨hother, (not_or.mp hroot).1, (not_or.mp hroot).2⟩]
    · rw [if_neg hother]
      exact content?_congr (by rw [lookup_put, if_neg fun h => hother h.1])
  · cases h

theorem content?_makeDirectory {t t' : FileTree} {p : Path} (h : t.makeDirectory p = .ok t')
    (other : List String) : t'.content? other = t.content? other := by
  simp only [makeDirectory] at h
  split at h
  · cases h
    rfl
  · cases h
  · rename_i hnone _
    cases h
    exact content?_put_directory hnone other
  · cases h

theorem content?_makeDirectories {t t' : FileTree} {p : Path} (h : t.makeDirectories p = .ok t')
    (other : List String) : t'.content? other = t.content? other := by
  -- one directory after another, each where nothing is
  have hfold : ∀ (lengths : List Nat) (t : FileTree),
      (lengths.foldl (fun t n => if (t.lookup (p.resolve.take n)).isSome then t
        else t.put (p.resolve.take n) .directory) t).content? other = t.content? other := by
    intro lengths
    induction lengths with
    | nil => exact fun t => rfl
    | cons n rest ih =>
        intro t
        rw [List.foldl_cons, ih]
        split
        · rfl
        · rename_i hnone
          exact content?_put_directory (Option.not_isSome_iff_eq_none.mp hnone) other
  simp only [makeDirectories] at h
  split at h
  · cases h
  · split at h
    · cases h
    · cases h
      exact hfold _ t

/-- A file that is stored changes no other content, and its own only to what is stored. -/
theorem content?_store (t : FileTree) (p : Path) (content : Bytes) (other : List String) :
    (t.store p content).content? other = t.content? other ∨
      other = p.resolve ∧ (t.store p content).content? other = some content := by
  unfold store
  split
  · exact .inl rfl
  · rename_i made hmade
    have hkept := content?_makeDirectories hmade other
    split
    · exact .inl hkept
    · rename_i written hwritten
      rw [content?_write hwritten, hkept]
      by_cases hother : other = p.resolve
      · exact .inr ⟨hother, if_pos hother⟩
      · exact .inl (if_neg hother)

end FileTree

end ArrowCircuit
