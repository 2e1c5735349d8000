import Mathlib.Data.List.Basic
import Mathlib.Data.String.Basic
import CompletionDb.File.Disk
import CompletionDb.Store

/-!
# The places that paths lead to

A disk has no links, so where a path leads can be read off its text: a part goes one step down, two
dots go one step up, one dot stays. `Disk.placeOf` is that reading. It does not ask whether the
directories on the way exist; if a path is found on a disk at all, it is found at its place.

The paths that matter here are those of the files of a store and of their temporary files. The two
files of a module lie side by side, and in the place of the store if its name has no slash, whatever
the spelling of the path: empty parts and single dots, which the path of the temporary file leaves
out, lead nowhere.
-/
namespace CompletionDb

namespace Path

/-- A name that can stand as one part of a path. -/
structure IsComponent (name : String) : Prop where
  nonempty : name ≠ ""
  noSlash : '/' ∉ name.toList

instance (name : String) : Decidable (IsComponent name) :=
  decidable_of_iff (name ≠ "" ∧ '/' ∉ name.toList)
    ⟨fun h => ⟨h.1, h.2⟩, fun h => ⟨h.nonempty, h.noSlash⟩⟩

/-! ## Cutting at slashes -/

theorem splitSlashes_ne_nil (cs : List Char) : splitSlashes cs ≠ [] := by
  cases cs with
  | nil => simp [splitSlashes]
  | cons c cs =>
      rw [splitSlashes]
      split
      · simp
      · split <;> simp

theorem splitSlashes_append (cs ds : List Char) :
    splitSlashes (cs ++ '/' :: ds) = splitSlashes cs ++ splitSlashes ds := by
  induction cs with
  | nil => simp [splitSlashes]
  | cons c cs ih =>
      rw [List.cons_append, splitSlashes, splitSlashes, ih]
      by_cases hc : c = '/'
      · simp [hc]
      · obtain ⟨part, parts, hcs⟩ := List.exists_cons_of_ne_nil (splitSlashes_ne_nil cs)
        simp [hc, hcs]

theorem splitSlashes_of_noSlash {cs : List Char} (h : '/' ∉ cs) : splitSlashes cs = [cs] := by
  induction cs with
  | nil => rfl
  | cons c cs ih =>
      simp only [List.mem_cons, not_or] at h
      rw [splitSlashes, if_neg (Ne.symm h.1), ih h.2]

theorem noSlash_of_mem_splitSlashes {cs part : List Char} (h : part ∈ splitSlashes cs) :
    '/' ∉ part := by
  induction cs generalizing part with
  | nil =>
      obtain rfl : part = [] := by simpa [splitSlashes] using h
      simp
  | cons c cs ih =>
      rw [splitSlashes] at h
      obtain ⟨first, parts, hcs⟩ := List.exists_cons_of_ne_nil (splitSlashes_ne_nil cs)
      rw [hcs] at h ih
      by_cases hc : c = '/'
      · rw [if_pos hc, List.mem_cons] at h
        rcases h with rfl | h
        · simp
        · exact ih h
      · rw [if_neg hc, List.mem_cons] at h
        rcases h with rfl | h
        · have hfirst := ih List.mem_cons_self
          simp [hfirst, Ne.symm hc]
        · exact ih (List.mem_cons_of_mem _ h)

theorem splitSlashes_intercalate {parts : List (List Char)} (hne : parts ≠ [])
    (h : ∀ part ∈ parts, '/' ∉ part) : splitSlashes (['/'].intercalate parts) = parts := by
  induction parts with
  | nil => exact absurd rfl hne
  | cons part parts ih =>
      have hpart : '/' ∉ part := h part List.mem_cons_self
      cases parts with
      | nil => simpa using splitSlashes_of_noSlash hpart
      | cons next parts =>
          have hrest := ih (by simp) fun p hp => h p (List.mem_cons_of_mem _ hp)
          rw [List.intercalate_cons_cons, List.append_assoc, List.singleton_append,
            splitSlashes_append, splitSlashes_of_noSlash hpart, hrest]
          rfl

/-- Text without a slash at the end belongs to the last part. -/
theorem splitSlashes_append_of_noSlash (cs : List Char) {ds : List Char} (h : '/' ∉ ds) :
    ∃ above last, splitSlashes (cs ++ ds) = above ++ [last ++ ds] := by
  induction cs with
  | nil => exact ⟨[], [], splitSlashes_of_noSlash h⟩
  | cons c cs ih =>
      obtain ⟨above, last, hsplit⟩ := ih
      rw [List.cons_append, splitSlashes, hsplit]
      by_cases hc : c = '/'
      · exact ⟨[] :: above, last, by rw [if_pos hc]; rfl⟩
      · rw [if_neg hc]
        cases above with
        | nil => exact ⟨[], c :: last, rfl⟩
        | cons part above => exact ⟨(c :: part) :: above, last, rfl⟩

/-! ## Parts of composed paths -/

theorem isComponent_of_mem_rawParts {p : Path} {part : String} (h : part ∈ p.rawParts) :
    IsComponent part := by
  obtain ⟨cs, hcs, rfl⟩ := List.mem_map.mp h
  obtain ⟨hmem, hne⟩ := List.mem_filter.mp hcs
  constructor
  · intro hempty
    have : cs = [] := by simpa using congrArg String.toList hempty
    simp [this] at hne
  · rw [String.toList_ofList]
    exact noSlash_of_mem_splitSlashes hmem

theorem IsComponent.toList_ne_nil {name : String} (h : IsComponent name) : name.toList ≠ [] := by
  rw [Ne, String.toList_eq_nil_iff]
  exact h.nonempty

theorem IsComponent.not_absolute {name : String} (h : IsComponent name) :
    isAbsolute name = false := by
  obtain ⟨c, cs, hcs⟩ := List.exists_cons_of_ne_nil h.toList_ne_nil
  have hc : c ≠ '/' := by
    rintro rfl
    exact h.noSlash (by simp [hcs])
  simp [isAbsolute, hcs, hc]

/-- A path below a root is the name alone, or the text of the root without a final slash, a slash
and the name. -/
theorem join_cases (root : Path) {name : String} (hname : IsComponent name) :
    root = "" ∧ join root name = name ∨
      root ≠ "" ∧ ∃ body, (root.toList = body ∨ root.toList = body ++ ['/']) ∧
        (join root name).toList = body ++ '/' :: name.toList := by
  unfold join
  rw [hname.not_absolute]
  by_cases hempty : root = ""
  · left
    simp [hempty]
  · right
    refine ⟨hempty, ?_⟩
    have hne : root.isEmpty = false := by simpa [String.isEmpty_iff] using hempty
    by_cases hslash : endsWithSlash root
    · obtain ⟨body, hbody⟩ := List.getLast?_eq_some_iff.mp (by simpa [endsWithSlash] using hslash)
      exact ⟨body, .inr hbody, by simp [hslash, hbody]⟩
    · exact ⟨root.toList, .inl rfl, by simp [hslash, hne]⟩

theorem rawParts_of_isComponent {name : String} (h : IsComponent name) :
    rawParts name = [name] := by
  rw [rawParts, splitSlashes_of_noSlash h.noSlash]
  simp [h.toList_ne_nil, String.ofList_toList]

theorem rawParts_join {root : Path} {name : String} (hname : IsComponent name) :
    rawParts (join root name) = rawParts root ++ [name] := by
  rcases join_cases root hname with ⟨rfl, hjoin⟩ | ⟨-, body, hroot, hjoin⟩
  · rw [hjoin, rawParts_of_isComponent hname]
    rfl
  · have hbody : rawParts root = ((splitSlashes body).filter (!·.isEmpty)).map String.ofList := by
      rcases hroot with hroot | hroot
      · rw [rawParts, hroot]
      · rw [rawParts, hroot, splitSlashes_append]
        simp [splitSlashes]
    rw [rawParts, hjoin, splitSlashes_append, splitSlashes_of_noSlash hname.noSlash, hbody]
    simp [hname.toList_ne_nil, String.ofList_toList]

theorem isAbsolute_join {root : Path} {name : String} (hname : IsComponent name) :
    isAbsolute (join root name) = isAbsolute root := by
  rcases join_cases root hname with ⟨rfl, hjoin⟩ | ⟨hne, body, hroot, hjoin⟩
  · rw [hjoin, hname.not_absolute]
    rfl
  · unfold isAbsolute
    rw [hjoin]
    cases body with
    | nil =>
        rcases hroot with hroot | hroot
        · exact absurd (String.toList_eq_nil_iff.mp hroot) hne
        · simp [hroot]
    | cons c body => rcases hroot with hroot | hroot <;> simp [hroot]

theorem endsWithSlash_join (root : Path) {name : String} (hname : IsComponent name) :
    endsWithSlash (join root name) = false := by
  have hlast : name.toList.getLast? ≠ some '/' := by
    intro hlast
    exact hname.noSlash (List.mem_of_getLast? hlast)
  unfold endsWithSlash
  rcases join_cases root hname with ⟨-, hjoin⟩ | ⟨-, body, -, hjoin⟩
  · rw [hjoin]
    simpa using hlast
  · rw [hjoin, List.getLast?_append_of_ne_nil _ (by simp),
      List.getLast?_cons_of_ne_nil hname.toList_ne_nil]
    simpa using hlast

theorem splitName_eq_some {name stem ext : List Char} (h : splitName name = some (stem, ext)) :
    name = stem ++ '.' :: ext ∧ stem ≠ [] := by
  have hcut := List.takeWhile_append_dropWhile (p := (· != '.')) (l := name.reverse)
  unfold splitName at h
  split at h
  · cases h
  · cases h
  · rename_i c rest hne hdrop
    have hdot : c = '.' := by
      have hhead := List.head_dropWhile_not (l := name.reverse) (· != '.') (by simp [hdrop])
      simpa [hdrop] using hhead
    simp only [Option.some.injEq, Prod.mk.injEq] at h
    rcases h with ⟨rfl, rfl⟩
    rw [hdrop, hdot] at hcut
    constructor
    · have hname := congrArg List.reverse hcut
      simpa using hname.symm
    · intro hnil
      exact hne (by simpa using hnil)

/-! ## The temporary file beside a file -/

theorem parts_join {root : Path} {name : String} (hname : IsComponent name) (hdot : name ≠ ".") :
    parts (join root name) = parts root ++ [name] := by
  unfold parts
  rw [rawParts_join hname, isAbsolute_join hname]
  cases rawParts root with
  | nil => simp [hdot]
  | cons first rest =>
      simp only [List.cons_append, List.filter_append]
      split <;> simp [hdot]

/-- A last part that is no dot stays the last one. -/
theorem parts_concat {p : Path} {above : List String} {last : String}
    (h : rawParts p = above ++ [last]) (hdot : last ≠ ".") :
    ∃ front, parts p = front ++ [last] := by
  unfold parts
  rw [h]
  cases above with
  | nil => exact ⟨[], by simp [hdot]⟩
  | cons first above =>
      refine ⟨if first = "." && isAbsolute p then above.filter (· != ".")
        else first :: above.filter (· != "."), ?_⟩
      simp only [List.cons_append, List.filter_append]
      split <;> simp [hdot]

theorem isComponent_of_mem_parts {p : Path} {part : String} (h : part ∈ parts p) :
    IsComponent part := by
  apply isComponent_of_mem_rawParts (p := p)
  unfold parts at h
  cases hraw : rawParts p with
  | nil => simp [hraw] at h
  | cons first rest =>
      simp only [hraw] at h
      split at h
      · exact List.mem_cons_of_mem _ (List.mem_filter.mp h).1
      · rcases List.mem_cons.mp h with rfl | h
        · exact List.mem_cons_self
        · exact List.mem_cons_of_mem _ (List.mem_filter.mp h).1

theorem toList_ofParts (absolute : Bool) (ps : List String) :
    (ofParts absolute ps).toList =
      (if absolute then ['/'] else []) ++ ['/'].intercalate (ps.map String.toList) := by
  rw [ofParts, String.toList_append, String.toList_intercalate]
  cases absolute <;> rfl

theorem rawParts_ofParts (absolute : Bool) {ps : List String} (h : ∀ p ∈ ps, IsComponent p) :
    rawParts (ofParts absolute ps) = ps := by
  have hbody : ((splitSlashes (['/'].intercalate (ps.map String.toList))).filter
      (!·.isEmpty)).map String.ofList = ps := by
    by_cases hne : ps = []
    · simp [hne, splitSlashes]
    · rw [splitSlashes_intercalate (by simpa using hne)]
      · rw [List.filter_eq_self.mpr]
        · simp [Function.comp_def, String.ofList_toList]
        · intro cs hcs
          obtain ⟨p, hp, rfl⟩ := List.mem_map.mp hcs
          simpa using (h p hp).nonempty
      · intro cs hcs
        obtain ⟨p, hp, rfl⟩ := List.mem_map.mp hcs
        exact (h p hp).noSlash
  rw [rawParts, toList_ofParts]
  cases absolute with
  | false => simpa using hbody
  | true =>
      have hsplit := splitSlashes_append [] (['/'].intercalate (ps.map String.toList))
      rw [List.nil_append] at hsplit
      simpa [hsplit, splitSlashes] using hbody

theorem isAbsolute_ofParts (absolute : Bool) {ps : List String} (h : ∀ p ∈ ps, IsComponent p) :
    isAbsolute (ofParts absolute ps) = absolute := by
  rw [isAbsolute, toList_ofParts]
  cases absolute with
  | true => rfl
  | false =>
      cases ps with
      | nil => rfl
      | cons p ps =>
          have hp := h p List.mem_cons_self
          have hhead := hp.not_absolute
          obtain ⟨c, cs, hcs⟩ := List.exists_cons_of_ne_nil hp.toList_ne_nil
          rw [isAbsolute, hcs] at hhead
          cases ps <;> simpa [hcs] using hhead

end Path

/-! ## Places -/

/-- Where one part leads from a place. -/
def Place.enter (dir : Place) (part : String) : Place :=
  if part = "." then dir else if part = ".." then dir.dropLast else dir ++ [part]

namespace Disk

/-- Where a path leads, by its text. -/
def placeOf (d : Disk) (p : Path) : Place :=
  p.rawParts.foldl Place.enter (if p.isAbsolute then [] else d.working)

@[simp] theorem foldl_enter_filter (dir : Place) (parts : List String) :
    (parts.filter (· != ".")).foldl Place.enter dir = parts.foldl Place.enter dir := by
  induction parts generalizing dir with
  | nil => rfl
  | cons part parts ih =>
      by_cases h : part = "."
      · simp [h, Place.enter, ih]
      · simp [h, ih]

theorem foldl_enter_parts (dir : Place) (p : Path) :
    p.parts.foldl Place.enter dir = p.rawParts.foldl Place.enter dir := by
  unfold Path.parts
  cases p.rawParts with
  | nil => rfl
  | cons first rest =>
      dsimp only
      split
      · rename_i hfirst
        have hdot : first = "." := by simp_all
        rw [foldl_enter_filter, List.foldl_cons, hdot]
        rfl
      · simp

theorem placeOf_join (d : Disk) (root : Path) {name : String} (hname : Path.IsComponent name)
    (hdot : name ≠ ".") (hdots : name ≠ "..") :
    d.placeOf (root.join name) = d.placeOf root ++ [name] := by
  rw [placeOf, Path.rawParts_join hname, Path.isAbsolute_join hname, List.foldl_append]
  simp [placeOf, Place.enter, hdot, hdots]

/-- The parent of a path leads where the path without its last part does. -/
@[simp] theorem placeOf_ofParts (d : Disk) (p : Path) :
    d.placeOf (Path.ofParts p.isAbsolute p.parts) = d.placeOf p := by
  have hparts : ∀ part ∈ p.parts, Path.IsComponent part := fun _ => Path.isComponent_of_mem_parts
  rw [placeOf, Path.rawParts_ofParts _ hparts, Path.isAbsolute_ofParts _ hparts, foldl_enter_parts]
  rfl

end Disk

/-! ## Files of a store -/

namespace Store

/-- The name of a module's file. -/
def fileName (module : String) : String := module ++ "." ++ extension

/-- The name of the temporary file that becomes a module's file. -/
def tempName (tag module : String) : String := "." ++ fileName module ++ "." ++ tag ++ ".tmp"

theorem fileName_inj {a b : String} (h : fileName a = fileName b) : a = b := by
  have hlist := congrArg String.toList h
  simp only [fileName, String.toList_append, List.append_cancel_right_eq] at hlist
  exact String.toList_inj.mp hlist

theorem tempName_inj {tag a b : String} (h : tempName tag a = tempName tag b) : a = b := by
  have hlist := congrArg String.toList h
  simp only [tempName, String.toList_append, List.append_cancel_right_eq,
    List.append_cancel_left_eq] at hlist
  exact fileName_inj (String.toList_inj.mp hlist)

/-- File names end in another letter than the names of temporary files. -/
theorem fileName_ne_tempName (a b tag : String) : fileName a ≠ tempName tag b := by
  intro h
  have hlast := congrArg (fun s => s.toList.reverse.take 1) h
  simp [fileName, tempName, extension, String.toList_append] at hlast

theorem splitName_fileName {module : String} (h : module ≠ "") :
    Path.splitName (fileName module).toList = some (module.toList, extension.toList) := by
  have hreverse : (fileName module).toList.reverse =
      'b' :: 'd' :: 'i' :: '.' :: module.toList.reverse := by
    simp [fileName, extension]
  obtain ⟨c, cs, hcs⟩ : ∃ c cs, module.toList.reverse = c :: cs :=
    List.exists_cons_of_ne_nil (by simpa using h)
  rw [← List.reverse_reverse module.toList]
  unfold Path.splitName
  rw [hreverse, hcs]
  rfl

theorem stemOfName_fileName {module : String} (h : module ≠ "") :
    Path.stemOfName (fileName module) = module := by
  unfold Path.stemOfName
  rw [splitName_fileName h]
  exact String.ofList_toList

/-- The names of files are the texts that end in the extension and have something before it. -/
theorem moduleOfName_eq_some {name module : String} :
    moduleOfName name = some module ↔ name = fileName module ∧ module ≠ "" := by
  unfold moduleOfName Path.extensionOfName
  constructor
  · intro h
    split_ifs at h with hext
    cases hsplit : Path.splitName name.toList with
    | none => simp [hsplit] at hext
    | some cut =>
        rcases cut with ⟨stem, ext⟩
        rcases Path.splitName_eq_some hsplit with ⟨hname, hne⟩
        have hstem : String.ofList stem = module := by
          simpa [Path.stemOfName, hsplit] using h
        have hdb : String.ofList ext = extension := by simpa [hsplit] using hext
        rw [← hstem]
        refine ⟨?_, by simpa using hne⟩
        rw [← String.toList_inj, hname, fileName, ← hdb]
        simp
  · rintro ⟨rfl, hne⟩
    rw [splitName_fileName hne, stemOfName_fileName hne]
    simp

theorem isComponent_fileName {module : String} (h : '/' ∉ module.toList) :
    Path.IsComponent (fileName module) := by
  constructor
  · simp [fileName, extension]
  · simp [fileName, extension, String.toList_append, h]

theorem isComponent_tempName {tag module : String} (htag : '/' ∉ tag.toList)
    (h : '/' ∉ module.toList) : Path.IsComponent (tempName tag module) := by
  constructor
  · simp [tempName, fileName, extension]
  · simp [tempName, fileName, extension, String.toList_append, h, htag]

theorem fileName_ne_dots (module : String) : fileName module ≠ "." ∧ fileName module ≠ ".." := by
  constructor <;> intro h <;> have hlast := congrArg (fun s => s.toList.reverse.take 1) h <;>
    simp [fileName, extension, String.toList_append] at hlast

theorem tempName_ne_dots (tag module : String) :
    tempName tag module ≠ "." ∧ tempName tag module ≠ ".." := by
  constructor <;> intro h <;> have hlast := congrArg (fun s => s.toList.reverse.take 1) h <;>
    simp [tempName, fileName, extension, String.toList_append] at hlast

theorem rawParts_pathFor (s : Store) {module : String} (h : '/' ∉ module.toList) :
    Path.rawParts (s.pathFor module) = s.root.rawParts ++ [fileName module] :=
  Path.rawParts_join (isComponent_fileName h)

theorem isAbsolute_pathFor (s : Store) {module : String} (h : '/' ∉ module.toList) :
    Path.isAbsolute (s.pathFor module) = s.root.isAbsolute :=
  Path.isAbsolute_join (isComponent_fileName h)

theorem parts_pathFor (s : Store) {module : String} (h : '/' ∉ module.toList) :
    Path.parts (s.pathFor module) = s.root.parts ++ [fileName module] :=
  Path.parts_join (isComponent_fileName h) (fileName_ne_dots module).1

theorem name?_pathFor (s : Store) {module : String} (h : '/' ∉ module.toList) :
    Path.name? (s.pathFor module) = some (fileName module) := by
  simp [Path.name?, parts_pathFor s h, fileName_ne_dots module]

theorem temporary_pathFor {m : Type → Type} (host : Host m) (s : Store) {module : String}
    (h : '/' ∉ module.toList) :
    host.temporary (s.pathFor module) =
      (Path.ofParts s.root.isAbsolute s.root.parts).join (tempName host.tag module) := by
  unfold Host.temporary Path.withName
  rw [name?_pathFor s h]
  simp [Path.parent, parts_pathFor s h, isAbsolute_pathFor s h, tempName]

theorem placeOf_pathFor (d : Disk) (s : Store) {module : String} (h : '/' ∉ module.toList) :
    d.placeOf (s.pathFor module) = d.placeOf s.root ++ [fileName module] :=
  d.placeOf_join s.root (isComponent_fileName h) (fileName_ne_dots module).1
    (fileName_ne_dots module).2

theorem placeOf_temporary (d : Disk) (s : Store) {module : String} (h : '/' ∉ module.toList) :
    d.placeOf (Disk.host.temporary (s.pathFor module)) =
      d.placeOf s.root ++ [tempName Disk.host.tag module] := by
  have htag : '/' ∉ Disk.host.tag.toList := by decide
  have hdots := tempName_ne_dots Disk.host.tag module
  rw [temporary_pathFor Disk.host s h,
    d.placeOf_join _ (isComponent_tempName htag h) hdots.1 hdots.2, d.placeOf_ofParts]

/-! ## Files of modules with any name -/

/-- The path of a module ends in the name of a file, also if the name of the module has slashes. -/
theorem rawParts_pathFor_concat (s : Store) (module : String) :
    ∃ above last, Path.rawParts (s.pathFor module) = above ++ [fileName last] := by
  have htext : ∃ cs, (s.pathFor module).toList = cs ++ ".idb".toList := by
    unfold pathFor Path.join
    split_ifs
    · exact ⟨module.toList, by simp [extension]⟩
    · exact ⟨s.root.toList ++ module.toList, by simp [extension]⟩
    · exact ⟨s.root.toList ++ '/' :: module.toList, by simp [extension]⟩
  obtain ⟨cs, hcs⟩ := htext
  obtain ⟨above, last, hsplit⟩ :=
    Path.splitSlashes_append_of_noSlash cs (show '/' ∉ ".idb".toList by decide)
  have hname : String.ofList (last ++ ".idb".toList) = fileName (String.ofList last) := by
    rw [← String.toList_inj]
    simp [fileName, extension]
  refine ⟨(above.filter (!·.isEmpty)).map String.ofList, String.ofList last, ?_⟩
  rw [Path.rawParts, hcs, hsplit, List.filter_append, List.map_append, ← hname]
  simp

/-- The file of a module and its temporary file lie in one place, whatever the name of the module
is. -/
theorem placeOf_beside (d : Disk) (s : Store) (module : String) :
    ∃ dir last, d.placeOf (s.pathFor module) = dir ++ [fileName last] ∧
      d.placeOf (Disk.host.temporary (s.pathFor module)) =
        dir ++ [tempName Disk.host.tag last] := by
  obtain ⟨above, last, hraw⟩ := rawParts_pathFor_concat s module
  generalize s.pathFor module = path at hraw
  have hdots := fileName_ne_dots last
  have hslash : '/' ∉ last.toList := by
    have hname := Path.isComponent_of_mem_rawParts
      (hraw ▸ List.mem_append_right above (List.mem_singleton_self (fileName last)))
    intro hmem
    exact hname.noSlash (by simp [fileName, hmem])
  obtain ⟨front, hparts⟩ := Path.parts_concat hraw hdots.1
  have hsame : ∀ dir, front.foldl Place.enter dir = above.foldl Place.enter dir := by
    intro dir
    have hfold := Disk.foldl_enter_parts dir path
    rw [hparts, hraw, List.foldl_append, List.foldl_append] at hfold
    simpa [Place.enter, hdots] using hfold
  have hfront : ∀ part ∈ front, Path.IsComponent part := fun part hpart =>
    Path.isComponent_of_mem_parts (hparts ▸ List.mem_append_left _ hpart)
  have htemp : Disk.host.temporary path =
      (Path.ofParts path.isAbsolute front).join (tempName Disk.host.tag last) := by
    have hname : path.name? = some (fileName last) := by simp [Path.name?, hparts, hdots]
    unfold Host.temporary Path.withName
    rw [hname]
    simp [Path.parent, hparts, tempName]
  have htag : '/' ∉ Disk.host.tag.toList := by decide
  have htempDots := tempName_ne_dots Disk.host.tag last
  refine ⟨above.foldl Place.enter (if path.isAbsolute then [] else d.working), last, ?_, ?_⟩
  · rw [Disk.placeOf, hraw, List.foldl_append]
    simp [Place.enter, hdots]
  · rw [htemp, d.placeOf_join _ (isComponent_tempName htag hslash) htempDots.1 htempDots.2,
      Disk.placeOf, Path.rawParts_ofParts _ hfront, Path.isAbsolute_ofParts _ hfront, hsame]

end Store
end CompletionDb
