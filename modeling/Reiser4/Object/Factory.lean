/-
  The plugin factory and the profile (`factory.c`, `profile.c`).

  All plugins stand in one table.  Each type has a range of it, as long as there are ids of the type, and a plugin
  stands in the range of its type at its id.  A plugin is loaded at its own place, so what is found under a type
  and an id has that type and that id, whichever plugins were loaded and in whatever order.

  Where the linker puts the plugins is a parameter.
-/
import Mathlib.Logic.Function.Basic
import Mathlib.Data.List.Basic

namespace Reiser4.Object

/-! ## Plugins -/

/-- `plug_ident_t`. -/
structure PlugIdent where
  id : Nat
  group : Nat
  type : Nat
  deriving DecidableEq, Repr

/-- `reiser4_plug_t`. -/
structure ReiserPlug where
  id : PlugIdent
  label : String
  deriving DecidableEq, Repr

/-- The plugin types, `enum reiser4_plug_type`. -/
def objectPlugType : Nat := 0x0
def itemPlugType : Nat := 0x1
def nodePlugType : Nat := 0x2
def hashPlugType : Nat := 0x3
def fibrePlugType : Nat := 0x4
def policyPlugType : Nat := 0x5
def sdextPlugType : Nat := 0x6
def formatPlugType : Nat := 0x7
def oidPlugType : Nat := 0x8
def allocPlugType : Nat := 0x9
def journalPlugType : Nat := 0xa
def keyPlugType : Nat := 0xb
def compressPlugType : Nat := 0xc
def cmodePlugType : Nat := 0xd
def clusterPlugType : Nat := 0x10
def paramPlugType : Nat := 0x12
def lastPlugType : Nat := 0x13

/-- `LAST_ITEM`. -/
def lastItem : Nat := 8

/-- The plugins that `reiser4_factory_init` loads, in its order; the options of the build may leave some out. -/
def builtinPlugs : List ReiserPlug :=
  [⟨⟨0, 0, formatPlugType⟩, "format40"⟩, ⟨⟨0, 0, oidPlugType⟩, "oid40"⟩, ⟨⟨0, 0, allocPlugType⟩, "alloc40"⟩,
    ⟨⟨0, 0, journalPlugType⟩, "journal40"⟩, ⟨⟨1, 0, hashPlugType⟩, "r5_hash"⟩, ⟨⟨2, 0, hashPlugType⟩, "tea_hash"⟩,
    ⟨⟨4, 0, hashPlugType⟩, "deg_hash"⟩, ⟨⟨3, 0, hashPlugType⟩, "fnv1_hash"⟩,
    ⟨⟨0, 0, hashPlugType⟩, "rupasov_hash"⟩, ⟨⟨0, 0, fibrePlugType⟩, "lexic_fibre"⟩,
    ⟨⟨1, 0, fibrePlugType⟩, "dot_o_fibre"⟩, ⟨⟨2, 0, fibrePlugType⟩, "ext_1_fibre"⟩,
    ⟨⟨3, 0, fibrePlugType⟩, "ext_3_fibre"⟩, ⟨⟨0, 0, sdextPlugType⟩, "sdext_lw"⟩,
    ⟨⟨2, 0, sdextPlugType⟩, "sdext_lt"⟩, ⟨⟨1, 0, sdextPlugType⟩, "sdext_unix"⟩,
    ⟨⟨4, 0, sdextPlugType⟩, "sdext_plugin_set"⟩, ⟨⟨8, 0, sdextPlugType⟩, "sdext_heir_set"⟩,
    ⟨⟨7, 0, sdextPlugType⟩, "sdext_crypto"⟩, ⟨⟨5, 0, sdextPlugType⟩, "sdext_flags"⟩,
    ⟨⟨2, 2, itemPlugType⟩, "cde40"⟩, ⟨⟨0, 0, itemPlugType⟩, "stat40"⟩, ⟨⟨6, 3, itemPlugType⟩, "plain40"⟩,
    ⟨⟨7, 6, itemPlugType⟩, "ctail40"⟩, ⟨⟨5, 4, itemPlugType⟩, "extent40"⟩, ⟨⟨3, 1, itemPlugType⟩, "nodeptr40"⟩,
    ⟨⟨8, 7, itemPlugType⟩, "bbox40"⟩, ⟨⟨1, 0, keyPlugType⟩, "key_large"⟩, ⟨⟨0, 0, keyPlugType⟩, "key_short"⟩,
    ⟨⟨0, 0, nodePlugType⟩, "node40"⟩, ⟨⟨1, 0, nodePlugType⟩, "node41"⟩, ⟨⟨1, 1, objectPlugType⟩, "dir40"⟩,
    ⟨⟨0, 0, objectPlugType⟩, "reg40"⟩, ⟨⟨3, 3, objectPlugType⟩, "spl40"⟩, ⟨⟨4, 0, objectPlugType⟩, "ccreg40"⟩,
    ⟨⟨3, 0, sdextPlugType⟩, "sdext_symlink"⟩, ⟨⟨2, 2, objectPlugType⟩, "sym40"⟩,
    ⟨⟨0, 0, policyPlugType⟩, "extents"⟩, ⟨⟨2, 0, policyPlugType⟩, "smart"⟩, ⟨⟨1, 0, policyPlugType⟩, "tails"⟩,
    ⟨⟨0, 0, compressPlugType⟩, "lzo1"⟩, ⟨⟨1, 0, compressPlugType⟩, "gzip1"⟩, ⟨⟨2, 0, compressPlugType⟩, "zstd1"⟩,
    ⟨⟨0, 0, cmodePlugType⟩, "none"⟩, ⟨⟨1, 0, cmodePlugType⟩, "latt"⟩, ⟨⟨2, 0, cmodePlugType⟩, "ultim"⟩,
    ⟨⟨3, 0, cmodePlugType⟩, "force"⟩, ⟨⟨4, 0, cmodePlugType⟩, "conv"⟩, ⟨⟨0, 0, clusterPlugType⟩, "64K"⟩,
    ⟨⟨1, 0, clusterPlugType⟩, "32K"⟩, ⟨⟨2, 0, clusterPlugType⟩, "16K"⟩, ⟨⟨3, 0, clusterPlugType⟩, "8K"⟩,
    ⟨⟨4, 0, clusterPlugType⟩, "4K"⟩]

/-! ## The table -/

/-- `plugs_max` as it is written down: how many ids the types have. -/
def plugsLastId : List Nat := [5, 9, 2, 5, 4, 3, 9, 1, 1, 1, 1, 2, 3, 5, 0, 0, 5, 0, 0, 0]

/-- The loop of `reiser4_factory_init` over `plugs_max`: each type begins where the one in front of it ends. -/
def plugsMaxLoop (start prev : Nat) : List Nat → List Nat
  | [] => []
  | max :: rest => (start + prev) :: plugsMaxLoop (start + prev) max rest

/-- `plugs_max[type]` after the initialization. -/
def plugsMax (type : Nat) : Nat := (plugsMaxLoop 0 0 plugsLastId).getD type 0

/-- `plug_hash_func`. -/
def plugHashFunc (type id : Nat) : Nat := plugsMax type + id

/-- `plug_type_count`. -/
def plugTypeCount (type : Nat) : Nat := plugsMax (type + 1) - plugsMax type

/-- The plugins of a program: what stands at an address, and the addresses in the order in which the factory loads
    the plugins there. -/
structure Image where
  plugAt : Nat → ReiserPlug
  loaded : List Nat
  builtin : ∀ a ∈ loaded, plugAt a ∈ builtinPlugs

namespace Image

variable (img : Image)

/-- `cb_check_plug`: the plugin at `plug` leaves room for the one at `examined`. -/
def cbCheckPlug (examined plug : Nat) : Bool :=
  if examined = plug then true
  else if (img.plugAt examined).label = (img.plugAt plug).label then false
  else if lastItem ≤ (img.plugAt examined).id.group then false
  else if (img.plugAt examined).id = (img.plugAt plug).id then false
  else true

/-- `reiser4_factory_foreach` with this callback. -/
def factoryForeach (plugins : Nat → Option Nat) (examined : Nat) : Bool :=
  (List.range (plugsMax lastPlugType)).all fun i => (plugins i).all (img.cbCheckPlug examined)

/-- `reiser4_factory_load`. -/
def factoryLoad (plugins : Nat → Option Nat) (plug : Nat) : Nat → Option Nat :=
  let place := plugHashFunc (img.plugAt plug).id.type (img.plugAt plug).id.id
  if img.factoryForeach plugins plug then Function.update plugins place (some plug)
  -- `reiser4_factory_unload` clears the place, whatever stands there
  else Function.update plugins place none

/-- The table `plugins` after `reiser4_factory_init`. -/
def plugins : Nat → Option Nat := img.loaded.foldl img.factoryLoad fun _ => none

/-- `reiser4_factory_ifind`. -/
def factoryIfind (type id : Nat) : Option Nat :=
  if lastPlugType ≤ type then none
  else if plugTypeCount type ≤ id then none
  else img.plugins (plugHashFunc type id)

end Image

/-! ## The profile -/

/-- A slot of the profile: the default plugin and the bound of its ids. -/
structure ProfileSlot where
  id : PlugIdent
  max : Nat
  deriving DecidableEq, Repr

/-- `defprof.pid`, by the numbers `PROF_OBJ` and so on. -/
def defprofPid : List ProfileSlot :=
  [⟨⟨0, 0, objectPlugType⟩, 5⟩, ⟨⟨0, 0, paramPlugType⟩, 1⟩, ⟨⟨0, 0, objectPlugType⟩, 5⟩, ⟨⟨1, 1, objectPlugType⟩, 5⟩,
    ⟨⟨2, 2, objectPlugType⟩, 5⟩, ⟨⟨3, 3, objectPlugType⟩, 5⟩, ⟨⟨4, 0, objectPlugType⟩, 5⟩,
    ⟨⟨0, 0, formatPlugType⟩, 1⟩, ⟨⟨0, 0, journalPlugType⟩, 1⟩, ⟨⟨0, 0, oidPlugType⟩, 1⟩,
    ⟨⟨0, 0, allocPlugType⟩, 1⟩, ⟨⟨1, 0, keyPlugType⟩, 2⟩, ⟨⟨0, 0, nodePlugType⟩, 2⟩,
    ⟨⟨0, 0, compressPlugType⟩, 3⟩, ⟨⟨4, 0, cmodePlugType⟩, 5⟩, ⟨⟨0, 0, paramPlugType⟩, 1⟩,
    ⟨⟨0, 0, paramPlugType⟩, 1⟩, ⟨⟨0, 0, clusterPlugType⟩, 5⟩, ⟨⟨1, 0, hashPlugType⟩, 5⟩,
    ⟨⟨2, 0, fibrePlugType⟩, 4⟩, ⟨⟨2, 0, policyPlugType⟩, 3⟩, ⟨⟨0, 0, paramPlugType⟩, 1⟩,
    ⟨⟨0, 0, itemPlugType⟩, 9⟩, ⟨⟨2, 2, itemPlugType⟩, 9⟩, ⟨⟨3, 1, itemPlugType⟩, 9⟩, ⟨⟨6, 3, itemPlugType⟩, 9⟩,
    ⟨⟨5, 4, itemPlugType⟩, 9⟩, ⟨⟨7, 6, itemPlugType⟩, 9⟩, ⟨⟨1, 0, hashPlugType⟩, 5⟩, ⟨⟨2, 0, fibrePlugType⟩, 4⟩,
    ⟨⟨2, 2, itemPlugType⟩, 9⟩]

/-- The slots of the profile that are named below. -/
def profDirfile : Nat := 0x3
def profLast : Nat := 0x1f

/-- `defprof` of a run: `reiser4_profile_override` puts other ids into slots and marks them in the mask, and it
    leaves the types, the groups and the bounds. -/
structure Profile where
  ids : Nat → Nat
  mask : Nat

/-- `defprof.pid[slot]`. -/
def Profile.pid (prof : Profile) (slot : Nat) : ProfileSlot :=
  let default := defprofPid.getD slot ⟨⟨0, 0, lastPlugType⟩, 0⟩
  { default with id := { default.id with id := prof.ids slot } }

/-- The profile as it is written down. -/
def defprof : Profile := ⟨fun slot => (defprofPid.getD slot ⟨⟨0, 0, lastPlugType⟩, 0⟩).id.id, 0⟩

/-! ## What is found -/

/-- The ranges of two types lie one behind the other. -/
theorem plugsMax_next : ∀ s < lastPlugType, ∀ t < lastPlugType, s < t → plugsMax s + plugTypeCount s ≤ plugsMax t := by
  decide

/-- A place of the table belongs to one type and one id. -/
theorem plugHashFunc_inj {s t i j : Nat} (hs : s < lastPlugType) (ht : t < lastPlugType) (hi : i < plugTypeCount s)
    (hj : j < plugTypeCount t) (h : plugHashFunc s i = plugHashFunc t j) : s = t ∧ i = j := by
  unfold plugHashFunc at h
  rcases Nat.lt_trichotomy s t with hlt | rfl | hlt
  · have := plugsMax_next s hs t ht hlt
    omega
  · exact ⟨rfl, by omega⟩
  · have := plugsMax_next t ht s hs hlt
    omega

/-- The builtin plugins have their places in the ranges of their types. -/
theorem builtinPlugs_id : ∀ p ∈ builtinPlugs, p.id.type < lastPlugType ∧ p.id.id < plugTypeCount p.id.type := by
  decide

namespace Image

variable (img : Image)

/-- What stands in the table stands at its own place. -/
def Placed (plugins : Nat → Option Nat) : Prop :=
  ∀ i a, plugins i = some a →
    img.plugAt a ∈ builtinPlugs ∧ i = plugHashFunc (img.plugAt a).id.type (img.plugAt a).id.id

/-- Loading a plugin keeps that. -/
theorem Placed.load {img : Image} {plugins : Nat → Option Nat} (h : img.Placed plugins) {plug : Nat}
    (hplug : img.plugAt plug ∈ builtinPlugs) : img.Placed (img.factoryLoad plugins plug) := by
  intro i a ha
  rw [factoryLoad] at ha
  split at ha
  · by_cases hi : i = plugHashFunc (img.plugAt plug).id.type (img.plugAt plug).id.id
    · rw [hi, Function.update_self] at ha
      cases ha
      exact ⟨hplug, hi⟩
    · rw [Function.update_of_ne hi] at ha
      exact h i a ha
  · by_cases hi : i = plugHashFunc (img.plugAt plug).id.type (img.plugAt plug).id.id
    · rw [hi, Function.update_self] at ha
      cases ha
    · rw [Function.update_of_ne hi] at ha
      exact h i a ha

theorem Placed.foldl {img : Image} : ∀ (rest : List Nat) (plugins : Nat → Option Nat), img.Placed plugins →
    (∀ a ∈ rest, img.plugAt a ∈ builtinPlugs) → img.Placed (rest.foldl img.factoryLoad plugins)
  | [], _, h, _ => h
  | a :: rest, _, h, hrest => by
    rw [List.foldl_cons]
    exact Placed.foldl rest _ (h.load (hrest a (List.mem_cons_self ..))) fun b hb => hrest b (List.mem_cons_of_mem _ hb)

theorem placed : img.Placed img.plugins := by
  refine Placed.foldl _ _ (fun i a h => ?_) img.builtin
  cases h

/-- **What the factory finds** under a type and an id has this type and this id. -/
theorem factoryIfind_spec {type id a : Nat} (h : img.factoryIfind type id = some a) :
    (img.plugAt a).id.type = type ∧ (img.plugAt a).id.id = id ∧ id < plugTypeCount type := by
  rw [factoryIfind] at h
  split at h
  · cases h
  rename_i htype
  split at h
  · cases h
  rename_i hid
  obtain ⟨hbuiltin, hplace⟩ := img.placed _ a h
  obtain ⟨ht, hi⟩ := builtinPlugs_id _ hbuiltin
  obtain ⟨rfl, rfl⟩ := plugHashFunc_inj (Nat.lt_of_not_le htype) ht (Nat.lt_of_not_le hid) hi hplace
  exact ⟨rfl, rfl, hi⟩

/-- All ids are below 256. -/
theorem factoryIfind_lt {type id a : Nat} (h : img.factoryIfind type id = some a) : id < 256 := by
  have htype : type < lastPlugType := by
    rw [factoryIfind] at h
    by_contra hlast
    rw [if_pos (Nat.le_of_not_lt hlast)] at h
    cases h
  have hcount : ∀ t < lastPlugType, plugTypeCount t < 256 := by decide
  exact Nat.lt_trans (img.factoryIfind_spec h).2.2 (hcount type htype)

end Image

end Reiser4.Object
