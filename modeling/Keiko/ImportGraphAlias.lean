import Keiko.ImportGraphEdges

/-! The resolution of import specifiers by the aliases of a configuration. A pattern with a star gives
its targets the text in the star's place, and each target is tried under some twenty file spellings.
The answer names a file of the candidate set by its path in normal form. -/
namespace Keiko.ImportGraphAlias
open Keiko.ImportGraphEdges (normalizeScopePath)
open Keiko.Library List

section Paths

def dots : Text := ['.','.']

def addPart (absolute : Bool) (kept : List Text) (part : Text) : List Text :=
  if part = [] ∨ part = ['.'] then kept
  else if part = dots then
    match kept with
    | [] => if absolute then [] else [part]
    | last :: above => if last = dots then part :: kept else above
  else part :: kept

def parts (absolute trailing : Bool) (kept : List Text) : List Text :=
  (if absolute then [[]] else []) ++ (kept.reverse ++ if trailing then [[]] else [])

/-- `normalize` of the platform's POSIX paths. -/
def normalize (path : Text) : Text :=
  let absolute := path.head? = some '/'
  let trailing := path.getLast? = some '/'
  match (path.splitOn '/').foldl (addPart absolute) [] with
  | [] => if absolute then ['/'] else if trailing then ['.','/'] else ['.']
  | kept => ['/'].intercalate (parts absolute trailing kept)

/-- `join` of the platform's POSIX paths, at two arguments. -/
def join (first second : Text) : Text :=
  normalize (['/'].intercalate ([first,second].filter (· ≠ [])))

end Paths

section Resolver

structure TsconfigAlias where
  pattern : Text
  targets : List Text
  baseUrl : Text

/-- `regular` answers for `containedRealPathInfo`, `isCanonicalAllowedContainedPath` and `stat` that the path
is that of a file with one link; the root of the workspace is a directory. -/
structure Scope where
  candidatePaths : List Text
  isDenied : Text → Bool
  regular : Text → Bool
  root : regular ['.'] = false

def resolveExtensions : List Text :=
  [".ts",".tsx",".js",".jsx",".mjs",".cjs",".mts",".cts",".vue",".json"].map String.toList

def safeFileExists (scope : Scope) (scopePath : Text) : Bool :=
  let normalized := normalizeScopePath normalize scopePath
  if "../".toList.isPrefixOf normalized || normalized = dots || scope.isDenied normalized ||
      !scope.candidatePaths.contains normalized then false
  else scope.regular normalized

def moduleCandidates (basePath : Text) : List Text :=
  let normalized := normalizeScopePath normalize basePath
  normalized :: (resolveExtensions.map fun ext => normalized ++ ext) ++
    resolveExtensions.map fun ext => join normalized ("index".toList ++ ext)

def resolveModuleCandidate (scope : Scope) (basePath : Text) : Option Text :=
  (moduleCandidates basePath).find? (safeFileExists scope)

def matchAliasPattern (entry : TsconfigAlias) (specifier : Text) : Option Text :=
  if '*' ∈ entry.pattern then
    let star := entry.pattern.idxOf '*'
    let before := entry.pattern.take star
    let after := entry.pattern.drop (star + 1)
    if before.isPrefixOf specifier && after.isSuffixOf specifier then
      some ((specifier.take (specifier.length - after.length)).drop before.length)
    else none
  else if specifier = entry.pattern then some []
  else none

def targetPath (entry : TsconfigAlias) (capture target : Text) : Text :=
  join entry.baseUrl (capture.intercalate (target.splitOn '*'))

def resolveAliasTargets (scope : Scope) (entry : TsconfigAlias) (capture : Text) : Option Text :=
  entry.targets.findSome? fun target => resolveModuleCandidate scope (targetPath entry capture target)

def resolveAlias (scope : Scope) (specifier : Text) (aliases : List TsconfigAlias) : Option Text :=
  aliases.findSome? fun entry => (matchAliasPattern entry specifier).bind (resolveAliasTargets scope entry)

end Resolver

section Normal

/-- What is kept of a path is free of dots, but for leading double dots of a relative one. -/
inductive Kept (absolute : Bool) : List Text → Prop where
  | nil : Kept absolute []
  | up {kept : List Text} : absolute = false → (∀ part ∈ kept, part = dots) → Kept absolute kept →
      Kept absolute (dots :: kept)
  | name {part : Text} {kept : List Text} : part ∉ [[],['.'],dots] → '/' ∉ part → '\\' ∉ part → Kept absolute kept →
      Kept absolute (part :: kept)

inductive Normal : Text → Prop where
  | here : Normal ['.']
  | root : Normal ['/']
  | path {absolute trailing : Bool} {kept : List Text} : Kept absolute kept → kept ≠ [] →
      Normal (['/'].intercalate (parts absolute trailing kept))

variable {absolute trailing : Bool} {kept : List Text} {part path : Text}

theorem Kept.add (settled : Kept absolute kept) (no_slash : '/' ∉ part) (no_backslash : '\\' ∉ part) :
    Kept absolute (addPart absolute kept part) := by
  unfold addPart
  split
  · exact settled
  · next other =>
    rw [not_or] at other
    split
    · next twice =>
      subst twice
      cases settled with
      | nil => cases absolute <;> simp [Kept.nil,Kept.up]
      | up relative same above => simpa using .up relative (by simpa using same) (.up relative same above)
      | name plain _ _ above =>
        simp only [mem_cons,not_mem_nil,or_false,not_or] at plain
        simpa [plain.2.2] using above
    · next once => exact .name (by simp [other,once]) no_slash no_backslash settled

theorem kept_foldl {texts : List Text} (settled : Kept absolute kept)
    (apart : ∀ part ∈ texts, '/' ∉ part ∧ '\\' ∉ part) :
    Kept absolute (texts.foldl (addPart absolute) kept) := by
  induction texts generalizing kept with
  | nil => exact settled
  | cons part texts ih =>
    have first := apart part mem_cons_self
    exact ih (settled.add first.1 first.2) fun other mem => apart other (mem_cons_of_mem _ mem)

theorem Kept.foldl (settled : Kept absolute kept) : kept.reverse.foldl (addPart absolute) [] = kept := by
  induction settled with
  | nil => rfl
  | @up kept relative same above ih =>
    rw [reverse_cons,foldl_append,ih,foldl_cons,foldl_nil]
    cases kept with
    | nil => simp [addPart,dots,relative]
    | cons last kept => simp [addPart,dots,same last mem_cons_self]
  | name plain _ _ above ih =>
    simp only [mem_cons,not_mem_nil,or_false,not_or] at plain
    simp [ih,addPart,plain]

theorem Kept.apart (settled : Kept absolute kept) : ∀ part ∈ kept, part ∉ [[],['.']] ∧ '/' ∉ part ∧ '\\' ∉ part := by
  induction settled with
  | nil => simp
  | up _ _ _ ih => exact forall_mem_cons.mpr ⟨by decide,ih⟩
  | name plain no_slash no_backslash _ ih =>
    exact forall_mem_cons.mpr ⟨⟨fun mem => plain (by simp_all),no_slash,no_backslash⟩,ih⟩

theorem mem_splitOn_iff {c : Char} : (∃ part ∈ path.splitOn '/', c ∈ part) ↔ c ∈ path ∧ c ≠ '/' := by
  induction path with
  | nil => simp
  | cons first path ih =>
    obtain ⟨part,texts,split⟩ := exists_cons_of_ne_nil (splitOn_ne_nil '/' path)
    rw [split,exists_mem_cons_iff] at ih
    rw [splitOn_cons_eq_if_modifyHead,split]
    by_cases slash : first = '/'
    · rw [if_pos (by simpa using slash),exists_mem_cons_iff,exists_mem_cons_iff,ih,mem_cons]
      grind
    · rw [if_neg (by simpa using slash),modifyHead_cons,exists_mem_cons_iff,mem_cons,or_assoc,ih,mem_cons]
      grind

theorem head?_intercalate {texts : List Text} (no_slash : '/' ∉ part) :
    (['/'].intercalate (part :: texts)).head? = some '/' ↔ part = [] ∧ texts ≠ [] := by
  cases texts with
  | nil =>
    exact ⟨fun at_head => absurd (mem_of_mem_head? (by simpa using at_head)) no_slash,fun both => absurd rfl both.2⟩
  | cons second texts => cases part <;> simp_all [intercalate_cons_cons,eq_comm]

theorem intercalate_append_last {texts : List Text} (ext : Text) :
    ['/'].intercalate (texts ++ [part ++ ext]) = ['/'].intercalate (texts ++ [part]) ++ ext := by
  induction texts with
  | nil => simp
  | cons first texts ih =>
    rw [cons_append,cons_append,intercalate_cons_of_ne_nil (by simp),intercalate_cons_of_ne_nil (by simp),ih]
    simp

theorem getLast?_intercalate {texts : List Text} (no_slash : '/' ∉ part) :
    (['/'].intercalate (texts ++ [part])).getLast? = some '/' ↔ part = [] ∧ texts ≠ [] := by
  rw [← nil_append part,intercalate_append_last,getLast?_append]
  cases last : part.getLast? with
  | some c =>
    have other : c ≠ '/' := fun same => no_slash (same ▸ mem_of_getLast? last)
    have filled : part ≠ [] := fun empty => by simp [empty] at last
    simp [other,filled]
  | none =>
    rw [getLast?_eq_none_iff.mp last]
    induction texts with
    | nil => simp
    | cons first texts ih =>
      rw [cons_append,intercalate_cons_of_ne_nil (by simp),getLast?_append]
      cases texts with
      | nil => simp
      | cons second texts => simp [show _ = some '/' by simpa using ih]

theorem mem_parts (mem : part ∈ parts absolute trailing kept) : part = [] ∨ part ∈ kept := by
  cases absolute <;> cases trailing <;> simp_all [parts,or_comm]

theorem splitOn_parts (settled : Kept absolute kept) (filled : kept ≠ []) :
    (['/'].intercalate (parts absolute trailing kept)).splitOn '/' = parts absolute trailing kept := by
  apply splitOn_intercalate
  · intro part mem
    rcases mem_parts mem with rfl | inside
    · exact not_mem_nil
    · exact (settled.apart part inside).2.1
  · simp [parts,filled]

theorem normalize_parts (settled : Kept absolute kept) (filled : kept ≠ []) :
    normalize (['/'].intercalate (parts absolute trailing kept)) =
      ['/'].intercalate (parts absolute trailing kept) := by
  have first : (['/'].intercalate (parts absolute trailing kept)).head? = some '/' ↔ absolute = true := by
    obtain ⟨part,texts,front⟩ := exists_cons_of_ne_nil (reverse_ne_nil_iff.mpr filled)
    have inside := settled.apart part (mem_reverse.mp (front ▸ mem_cons_self))
    cases absolute with
    | false =>
      have other : ¬(['/'].intercalate (part :: (texts ++ if trailing then [[]] else []))).head? = some '/' :=
        mt (head?_intercalate inside.2.1).mp (by simp_all)
      simpa [parts,front] using other
    | true => simp [parts,front,intercalate_cons_cons]
  have last : (['/'].intercalate (parts absolute trailing kept)).getLast? = some '/' ↔ trailing = true := by
    cases kept with
    | nil => contradiction
    | cons part kept =>
      have inside := settled.apart part mem_cons_self
      cases trailing with
      | false =>
        rw [show parts absolute false (part :: kept) = (if absolute then [[]] else []) ++ kept.reverse ++ [part] by
          simp [parts],getLast?_intercalate inside.2.1]
        simpa using fun empty => absurd (by simp [empty]) inside.1
      | true =>
        rw [parts,if_pos rfl,← append_assoc,getLast?_intercalate not_mem_nil]
        simp
  have again : (parts absolute trailing kept).foldl (addPart absolute) [] = kept := by
    have empty (kept : List Text) : addPart absolute kept [] = kept := by simp [addPart]
    cases absolute <;> cases trailing <;> simp [parts,settled.foldl,empty]
  unfold normalize
  simp only [splitOn_parts settled filled,first,last,Bool.decide_coe,again]

theorem normalize_normal (no_backslash : '\\' ∉ path) : (normalize path = ['.','/'] ∧
    (path.splitOn '/').foldl (addPart (path.head? = some '/')) [] = []) ∨ Normal (normalize path) := by
  have settled : Kept (decide (path.head? = some '/')) ((path.splitOn '/').foldl (addPart _) []) :=
    kept_foldl .nil fun part mem => ⟨fun slash => (mem_splitOn_iff.mp ⟨part,mem,slash⟩).2 rfl,
      fun backslash => no_backslash (mem_splitOn_iff.mp ⟨part,mem,backslash⟩).1⟩
  unfold normalize
  dsimp only
  split
  · next empty =>
    split
    · exact .inr .root
    · split
      · exact .inl ⟨rfl,empty⟩
      · exact .inr .here
  · next filled => exact .inr (.path settled (by simpa using filled))

theorem Normal.no_backslash (normal : Normal path) : '\\' ∉ path := by
  cases normal with
  | here => decide
  | root => decide
  | path settled filled =>
    intro backslash
    obtain ⟨part,mem,backslash⟩ := mem_splitOn_iff.mpr ⟨backslash,by decide⟩
    rw [splitOn_parts settled filled] at mem
    rcases mem_parts mem with rfl | inside
    · cases backslash
    · exact (settled.apart part inside).2.2 backslash

theorem Normal.no_dot (normal : Normal path) (rest : Text) : path ≠ '.' :: '/' :: rest := by
  intro same
  cases normal with
  | here => cases same
  | root => cases same
  | @path absolute trailing kept settled filled =>
    have dot : ['.'] ∈ (['/'].intercalate (parts absolute trailing kept)).splitOn '/' := by
      rw [same]
      simp [splitOn_cons_eq_if_modifyHead]
    rw [splitOn_parts settled filled] at dot
    rcases mem_parts dot with empty | inside
    · cases empty
    · exact absurd (by simp) (settled.apart _ inside).1

theorem Normal.normalizeScopePath_eq (normal : Normal path) : normalizeScopePath normalize path = path := by
  have same : (path.map fun c => if c = '\\' then '/' else c) = path :=
    (map_congr_left (g := id) fun c mem => if_neg (ne_of_mem_of_not_mem mem normal.no_backslash)).trans (map_id _)
  have kept : normalize path = path := by
    cases normal with
    | here => rfl
    | root => rfl
    | path settled filled => exact normalize_parts settled filled
  rw [normalizeScopePath,same,kept]
  split
  · exact absurd rfl (normal.no_dot _)
  · rfl

theorem normalizeScopePath_normal (path : Text) :
    normalizeScopePath normalize path = [] ∨ Normal (normalizeScopePath normalize path) := by
  have posix : '\\' ∉ path.map fun c => if c = '\\' then '/' else c := by
    intro mem
    obtain ⟨c,_,same⟩ := mem_map.mp mem
    split at same
    · cases same
    · next other => exact other same
  rw [normalizeScopePath]
  rcases normalize_normal posix with ⟨dot,_⟩ | normal
  · rw [dot]
    exact .inl rfl
  · right
    split
    · next same => exact absurd same (normal.no_dot _)
    · exact normal

def Ends (ext : Text) : Prop := '/' ∉ ext ∧ '\\' ∉ ext ∧ 2 < ext.length

theorem Ends.other {ext : Text} (ends : Ends ext) (part : Text) : part ++ ext ∉ [[],['.'],dots] := by
  intro short
  have few := (by decide : ∀ text ∈ [[],['.'],dots], text.length ≤ 2) _ short
  rw [length_append] at few
  exact absurd ends.2.2 (by omega)

theorem Kept.ends {ext : Text} (settled : Kept absolute kept) (ends : Ends ext) (no_slash : '/' ∉ part)
    (no_backslash : '\\' ∉ part) : Kept absolute ((part ++ ext) :: kept) :=
  .name (ends.other part) (by simp [no_slash,ends.1]) (by simp [no_backslash,ends.2.1]) settled

theorem Kept.tail (settled : Kept absolute (part :: kept)) : Kept absolute kept := by
  cases settled <;> assumption

theorem normal_ends {ext : Text} (ends : Ends ext) (normal : path = [] ∨ Normal path) : Normal (path ++ ext) := by
  have alone (absolute : Bool) (part : Text) (no_slash : '/' ∉ part) (no_backslash : '\\' ∉ part) :
      Normal (['/'].intercalate (parts absolute false [part ++ ext])) :=
    .path (Kept.nil.ends ends no_slash no_backslash) (cons_ne_nil _ _)
  rcases normal with rfl | normal
  · simpa [parts] using alone false [] (by simp) (by simp)
  · cases normal with
    | here => simpa [parts] using alone false ['.'] (by decide) (by decide)
    | root => simpa [parts,intercalate_cons_cons] using alone true [] (by simp) (by simp)
    | @path absolute trailing kept settled filled =>
      cases trailing with
      | true =>
        rw [parts,if_pos rfl,← append_assoc,← intercalate_append_last]
        have named := settled.ends ends (not_mem_nil (a := '/')) not_mem_nil
        simpa [parts] using (.path named (cons_ne_nil _ _) : Normal (['/'].intercalate (parts absolute false _)))
      | false =>
        obtain ⟨part,kept,rfl⟩ := exists_cons_of_ne_nil filled
        have inside := settled.apart part mem_cons_self
        rw [show parts absolute false (part :: kept) = (if absolute then [[]] else []) ++ kept.reverse ++ [part] by
          simp [parts],← intercalate_append_last]
        have named := settled.tail.ends ends inside.2.1 inside.2.2
        simpa [parts] using (.path named (cons_ne_nil _ _) : Normal (['/'].intercalate (parts absolute false _)))

theorem normal_join {name : Text} (ends : Ends name) (normal : path = [] ∨ Normal path) : Normal (join path name) := by
  have other := ends.other []
  simp only [nil_append,mem_cons,not_mem_nil,or_false,not_or] at other
  obtain ⟨whole,front,same,split,posix⟩ : ∃ whole front, join path name = normalize whole ∧
      whole.splitOn '/' = front ++ [name] ∧ '\\' ∉ whole := by
    by_cases empty : path = []
    · exact ⟨name,[],by simp [join,other,empty],by simpa using splitOn_eq_singleton ends.1,ends.2.1⟩
    · refine ⟨path ++ '/' :: name,path.splitOn '/',by simp [join,other,empty,intercalate_cons_cons],?_,?_⟩
      · rw [splitOn_append_cons_self,splitOn_eq_singleton ends.1]
      · simp [(normal.resolve_left empty).no_backslash,ends.2.1]
  rw [same]
  refine (normalize_normal posix).resolve_left fun dot => ?_
  have last := dot.2
  rw [split,foldl_append] at last
  simp [addPart,other] at last

end Normal

section Resolution

variable {scope : Scope} {base path specifier capture : Text} {entry : TsconfigAlias} {aliases : List TsconfigAlias}

theorem moduleCandidates_normal (mem : path ∈ moduleCandidates base) : path = [] ∨ Normal path := by
  have normal := normalizeScopePath_normal base
  have ends : ∀ ext ∈ resolveExtensions, Ends ext ∧ Ends ("index".toList ++ ext) := by
    unfold Ends
    decide
  rw [moduleCandidates,cons_append,mem_cons,mem_append,mem_map,mem_map] at mem
  rcases mem with rfl | ⟨ext,known,rfl⟩ | ⟨ext,known,rfl⟩
  · exact normal
  · exact .inr (normal_ends (ends ext known).1 normal)
  · exact .inr (normal_join (ends ext known).2 normal)

theorem mem_candidatePaths (mem : path ∈ moduleCandidates base) (found : safeFileExists scope path = true) :
    path ∈ scope.candidatePaths := by
  rw [safeFileExists] at found
  rcases moduleCandidates_normal mem with rfl | normal
  · have root : normalizeScopePath normalize [] = ['.'] := rfl
    simp [root,scope.root] at found
  · rw [normal.normalizeScopePath_eq] at found
    simp_all

/-- What the pattern gives for a star: it is the specifier itself, or it has one star for the text between. -/
inductive Captures : (pattern specifier capture : Text) → Prop where
  | literal {pattern : Text} : '*' ∉ pattern → Captures pattern pattern []
  | star {before capture after : Text} : '*' ∉ before → '*' ∉ after ∨ capture = ['*'] →
      Captures (before ++ '*' :: after) (before ++ capture ++ after) capture

/-- The pattern is the specifier itself, or it has one star at most and the specifier has room for the rest of it. -/
def Fits (pattern specifier : Text) : Prop :=
  specifier = pattern ∨ pattern.count '*' ≤ 1 ∧ pattern.length ≤ specifier.length + 1

theorem Captures.fits {pattern : Text} (captures : Captures pattern specifier capture) : Fits pattern specifier := by
  cases captures with
  | literal => exact .inl rfl
  | star early late =>
    rcases late with late | rfl
    · refine .inr ⟨?_,?_⟩
      · simp [count_eq_zero.mpr early,count_eq_zero.mpr late]
      · simp only [length_append,length_cons]
        omega
    · exact .inl (by simp)

theorem matchAliasPattern_starred {before after : Text} (same : entry.pattern = before ++ '*' :: after)
    (early : '*' ∉ before) : matchAliasPattern entry specifier =
      if before.isPrefixOf specifier && after.isSuffixOf specifier then
        some ((specifier.take (specifier.length - after.length)).drop before.length)
      else none := by
  rw [matchAliasPattern,same,if_pos (by simp),idxOf_append_of_notMem early,idxOf_cons_self,Nat.add_zero]
  simp only [take_left,show drop (before.length + 1) (before ++ '*' :: after) = after by simp]

theorem Captures.matched (captures : Captures entry.pattern specifier capture) :
    matchAliasPattern entry specifier = some capture := by
  generalize pattern : entry.pattern = text at captures
  cases captures with
  | literal plain => rw [matchAliasPattern,pattern,if_neg plain,if_pos rfl]
  | @star before _ after early _ =>
    have last : after <:+ before ++ (capture ++ after) := ⟨before ++ capture,append_assoc _ _ _⟩
    rw [matchAliasPattern_starred pattern early,if_pos (by simp [last]),length_append,Nat.add_sub_cancel,take_left,
      drop_left]

theorem Fits.captures (fits : Fits entry.pattern specifier)
    (matched : matchAliasPattern entry specifier = some capture) :
    Captures entry.pattern specifier capture := by
  by_cases starred : '*' ∈ entry.pattern
  · obtain ⟨before,after,same,early⟩ := eq_append_cons_of_mem starred
    rw [matchAliasPattern_starred same early] at matched
    simp only [Bool.and_eq_true, isPrefixOf_iff_prefix,isSuffixOf_iff_suffix,Option.ite_none_right_eq_some,
      Option.some.injEq] at matched
    obtain ⟨⟨⟨rest,front⟩,⟨room,back⟩⟩,rfl⟩ := matched
    rw [same]
    rcases fits with whole | ⟨once,short⟩
    · have cut : ((before ++ '*' :: after).take ((before ++ '*' :: after).length - after.length)).drop before.length =
          ['*'] := by
        rw [append_cons,length_append,Nat.add_sub_cancel,take_left,drop_left]
      rw [whole,same,cut]
      simpa using (.star early (.inr rfl) : Captures (before ++ '*' :: after) (before ++ ['*'] ++ after) _)
    · have late : '*' ∉ after := by
        rw [same,count_append,count_cons_self] at once
        exact count_eq_zero.mp (by omega)
      have inside : before <+: room := by
        apply prefix_of_prefix_length_le ⟨rest,front⟩ ⟨after,back⟩
        rw [same,← back] at short
        simp only [length_append,length_cons] at short
        omega
      obtain ⟨capture,rfl⟩ := inside
      rw [← back,length_append,Nat.add_sub_cancel,take_left,drop_left]
      exact .star early (.inl late)
  · rw [matchAliasPattern,if_neg starred] at matched
    simp only [Option.ite_none_right_eq_some,Option.some.injEq] at matched
    obtain ⟨rfl,rfl⟩ := matched
    exact .literal starred

/-- None of the files exists that the target stands for. -/
def Missing (scope : Scope) (entry : TsconfigAlias) (capture target : Text) : Prop :=
  ∀ path ∈ moduleCandidates (targetPath entry capture target), safeFileExists scope path = false

/-- The pattern does not match, or none of the targets exists. -/
def Passes (scope : Scope) (specifier : Text) (entry : TsconfigAlias) : Prop :=
  ∀ capture, matchAliasPattern entry specifier = some capture →
    ∀ target ∈ entry.targets, Missing scope entry capture target

/-- The path is the first existing file of the first target that has one, of the first alias that has one. -/
structure Resolves (scope : Scope) (specifier : Text) (aliases : List TsconfigAlias) (path : Text) : Prop where
  known : path ∈ scope.candidatePaths
  first : ∃ before entry after, aliases = before ++ entry :: after ∧ (∀ other ∈ before, Passes scope specifier other) ∧
    ∃ capture, Captures entry.pattern specifier capture ∧
    ∃ front target back, entry.targets = front ++ target :: back ∧
    (∀ other ∈ front, Missing scope entry capture other) ∧
    ∃ skipped rest, moduleCandidates (targetPath entry capture target) = skipped ++ path :: rest ∧
      (∀ other ∈ skipped, safeFileExists scope other = false) ∧ safeFileExists scope path = true

theorem resolveModuleCandidate_eq_none : resolveModuleCandidate scope base = none ↔
    ∀ path ∈ moduleCandidates base, safeFileExists scope path = false := by
  simp [resolveModuleCandidate]

theorem passes_iff : Passes scope specifier entry ↔
    (matchAliasPattern entry specifier).bind (resolveAliasTargets scope entry) = none := by
  cases matched : matchAliasPattern entry specifier <;>
    simp [Passes,Missing,matched,resolveAliasTargets,resolveModuleCandidate_eq_none]

/-- The alias that decides has to fit the specifier. -/
theorem resolveAlias_resolves_iff (scope : Scope) (specifier : Text) (aliases : List TsconfigAlias) :
    (∀ path, resolveAlias scope specifier aliases = some path → Resolves scope specifier aliases path) ↔
      ∀ before entry after, aliases = before ++ entry :: after → (∀ other ∈ before, Passes scope specifier other) →
        ¬Passes scope specifier entry → Fits entry.pattern specifier := by
  classical
  constructor
  · intro declared before entry after same passed decides
    obtain ⟨path,found⟩ := Option.ne_none_iff_exists'.mp (mt passes_iff.mpr decides)
    have resolved : resolveAlias scope specifier aliases = some path := findSome?_eq_some_iff.mpr
      ⟨before,entry,after,same,found,fun other mem => passes_iff.mp (passed other mem)⟩
    obtain ⟨_,first,other,last,split,skipped,capture,captures,front,target,back,targets,_,behind,rest,candidates,_,here⟩ :=
      declared path resolved
    -- the alias that the path comes from is the first one that does not pass
    have stays : ¬Passes scope specifier other := fun passes => by
      have missing := passes capture captures.matched target (targets ▸ by simp) path (candidates ▸ by simp)
      rw [here] at missing
      cases missing
    have one {before after : List TsconfigAlias} {entry : TsconfigAlias} (same : aliases = before ++ entry :: after)
        (passed : ∀ other ∈ before, Passes scope specifier other) (decides : ¬Passes scope specifier entry) :
        aliases.find? (fun entry => ¬Passes scope specifier entry) = some entry :=
      find?_eq_some_iff_append.mpr ⟨by simpa using decides,before,after,same,by simpa using passed⟩
    cases (one same passed decides).symm.trans (one split skipped stays)
    exact captures.fits
  · intro fits path resolved
    obtain ⟨before,entry,after,same,found,passed⟩ := findSome?_eq_some_iff.mp resolved
    have passed : ∀ other ∈ before, Passes scope specifier other := fun other mem => passes_iff.mpr (passed other mem)
    obtain ⟨capture,matched,taken⟩ := Option.bind_eq_some_iff.mp found
    have decides : ¬Passes scope specifier entry := fun passes => by
      rw [passes_iff.mp passes] at found
      cases found
    obtain ⟨front,target,back,targets,found,missing⟩ := findSome?_eq_some_iff.mp taken
    obtain ⟨here,skipped,rest,candidates,others⟩ := find?_eq_some_iff_append.mp found
    have mem : path ∈ moduleCandidates (targetPath entry capture target) := candidates ▸ by simp
    refine ⟨mem_candidatePaths mem here,before,entry,after,same,passed,capture,
      (fits before entry after same passed decides).captures matched,front,target,back,targets,?_,skipped,rest,
      candidates,by simpa using others,here⟩
    exact fun other mem => resolveModuleCandidate_eq_none.mp (missing other mem)

/-- An alias whose two ends overlap in a specifier that is too short for both. -/
def overlapping : TsconfigAlias := ⟨"ab*ba".toList,["lib/a".toList],['.']⟩

def library : Scope := ⟨["lib/a.ts".toList],fun _ => false,(· ≠ ['.']),rfl⟩

theorem resolveAlias_overlap : ¬∀ path, resolveAlias library "aba".toList [overlapping] = some path →
    Resolves library "aba".toList [overlapping] path := by
  intro declared
  have found : resolveAlias library "aba".toList [overlapping] = some "lib/a.ts".toList := by decide
  obtain ⟨before,entry,after,same,_,capture,captures,_⟩ := (declared _ found).first
  have only : entry ∈ [overlapping] := same ▸ by simp
  rw [mem_singleton.mp only] at captures
  exact absurd captures.fits (by unfold Fits; decide)

end Resolution

end Keiko.ImportGraphAlias
