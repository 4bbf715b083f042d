import Mathlib.Data.List.Basic

/-! # From an installed method to the method that is called

`FunctionInstaller` stores the internal name of a class, with slashes, and a descriptor without the
receiver, and JNI takes such names. `JavaFunctionInvoker` gets the same strings, but `Class.forName`
takes dotted names, and the first parameter of an instance method is dropped as the receiver. The
strings can be read; argument types and the cache are left out.
-/

namespace WeaverDB.Java
open List Option

/-- A part of a name, without the characters that separate names and descriptors. -/
structure Identifier where
  chars : List Char
  separate : ∀ ch ∈ chars, ch ≠ '.' ∧ ch ≠ '/' ∧ ch ≠ ';'
deriving DecidableEq

structure ClassName where
  package : List Identifier
  simple : Identifier
deriving DecidableEq

def ClassName.joined (separator : Char) (c : ClassName) : List Char :=
  c.package.flatMap (fun p => p.chars ++ [separator]) ++ c.simple.chars

def ClassName.internalName (c : ClassName) : List Char := c.joined '/'

def ClassName.binaryName (c : ClassName) : List Char := c.joined '.'

inductive JavaType where
  | primitive (letter : Char)
  | object (c : ClassName)
  | array (element : JavaType)
deriving DecidableEq

structure MethodType where
  parameters : List JavaType
  returns : JavaType
deriving DecidableEq

/-- A static method, or one with a receiver, which the type does not include. -/
structure Method where
  declaring : ClassName
  name : Identifier
  type : MethodType
  isStatic : Bool
deriving DecidableEq

structure Descriptors (δ : Type) where
  descriptorString : MethodType → δ
  fromMethodDescriptorString : δ → Option MethodType
  inverse : ∀ mt, fromMethodDescriptorString (descriptorString mt) = some mt

/-- The classes and their methods. `GetStaticMethodID` finds the static ones. -/
structure Jvm where
  classes : List ClassName
  methods : List Method
  getStaticMethodID : ClassName → List Char → MethodType → Bool
  loaded : ∀ m ∈ methods, m.declaring ∈ classes
  found : ∀ m ∈ methods, m.isStatic → getStaticMethodID m.declaring m.name.chars m.type = true

variable {δ : Type} (strings : Descriptors δ) (jvm : Jvm)

def classGroup (descriptor : List Char) : Option (List Char) :=
  match descriptor.dropWhile (· != 'L') with
  | [] => none
  | _ :: rest =>
    match rest.reverse.dropWhile (· != ';') with
    | [] => none
    | _ :: group => some group.reverse

structure PgProcRow (δ : Type) where
  prosrc : List Char
  probin : δ

/-- `createFunctionStatement`, as far as it is stored in these columns. -/
def createFunctionStatement (m : Method) : Option (PgProcRow δ) :=
  (classGroup ('L' :: (m.declaring.internalName ++ [';']))).map fun group =>
    ⟨group ++ '.' :: m.name.chars, strings.descriptorString m.type⟩

structure FuncDef (δ : Type) where
  className : List Char
  methodName : List Char
  methodDesc : δ
  isStatic : Bool

/-- `GetJavaCallArgs`. Without a dot, or without the class, the server crashes. -/
def getJavaCallArgs (row : PgProcRow δ) : Option (FuncDef δ) :=
  match row.prosrc.dropWhile (· != '.') with
  | [] => none
  | _ :: javaname =>
    let javasrc := row.prosrc.takeWhile (· != '.')
    match jvm.classes.find? (·.internalName = javasrc), strings.fromMethodDescriptorString row.probin with
    | some clazz, some mt => some ⟨javasrc, javaname, row.probin, jvm.getStaticMethodID clazz javaname mt⟩
    | _, _ => none

/-- The look-up of `JavaFunctionInvoker.invoke`: what `findStatic` or `findVirtual` is asked for. -/
def invokeLookup (d : FuncDef δ) : Option (ClassName × List Char × MethodType × Bool) := do
  let clazz ← jvm.classes.find? (·.binaryName = d.className)
  let fullMt ← strings.fromMethodDescriptorString d.methodDesc
  if d.isStatic then pure (clazz, d.methodName, fullMt, true)
  else
    match fullMt.parameters with
    | [] => none
    | _ :: parameters => pure (clazz, d.methodName, { fullMt with parameters := parameters }, false)

def Resolves (m : Method) : Prop :=
  ((createFunctionStatement strings m).bind (getJavaCallArgs strings jvm)).bind
    (invokeLookup strings jvm) = some (m.declaring, m.name.chars, m.type, m.isStatic)

theorem classGroup_descriptor (name : List Char) : classGroup ('L' :: (name ++ [';'])) = some name := by
  simp [classGroup]

theorem not_mem_identifier (i : Identifier) {ch : Char} (h : ch = '.' ∨ ch = '/') : ch ∉ i.chars := by
  intro hmem
  obtain ⟨hdot, hslash, -⟩ := i.separate ch hmem
  exact h.elim hdot hslash

theorem not_mem_joined (c : ClassName) (separator : Char) {ch : Char} (h : ch = '.' ∨ ch = '/')
    (hne : ch ≠ separator) : ch ∉ c.joined separator := by
  unfold ClassName.joined
  rw [mem_append, mem_flatMap]
  rintro (⟨p, -, hp⟩ | hsimple)
  · obtain hp | hp := mem_append.mp hp
    · exact not_mem_identifier p h hp
    · exact hne (mem_singleton.mp hp)
  · exact not_mem_identifier c.simple h hsimple

theorem splitName (m : Method) :
    (m.declaring.internalName ++ '.' :: m.name.chars).dropWhile (· != '.') = '.' :: m.name.chars ∧
      (m.declaring.internalName ++ '.' :: m.name.chars).takeWhile (· != '.') =
        m.declaring.internalName := by
  have hall : ∀ ch ∈ m.declaring.internalName, (ch != '.') := fun ch hch => by
    rw [bne_iff_ne]
    rintro rfl
    exact not_mem_joined m.declaring '/' (.inl rfl) (by decide) hch
  rw [dropWhile_append_of_pos hall, takeWhile_append_of_pos hall]
  simp

/-- A class of the unnamed package has one name; any other has a slash in its internal name only. -/
theorem binaryName_eq_internalName {c d : ClassName} (h : c.binaryName = d.internalName) : d.package = [] := by
  cases hp : d.package with
  | nil => rfl
  | cons p package =>
    have hslash : '/' ∈ d.internalName := by
      rw [ClassName.internalName, ClassName.joined, hp]
      simp
    rw [← h] at hslash
    exact absurd hslash (not_mem_joined c _ (.inr rfl) (by decide))

theorem joined_unnamed {c d : ClassName} {separator : Char} (hs : separator = '.' ∨ separator = '/')
    (hd : d.package = []) (h : c.joined separator = d.joined separator) : c = d := by
  have hsimple : d.joined separator = d.simple.chars := by
    rw [ClassName.joined, hd]
    rfl
  rw [hsimple] at h
  cases hc : c.package with
  | nil =>
    obtain ⟨_, ⟨_, _⟩⟩ := c
    obtain ⟨_, ⟨_, _⟩⟩ := d
    cases hc
    cases hd
    cases (h : _ = _)
    rfl
  | cons p package =>
    have hmem : separator ∈ c.joined separator := by
      rw [ClassName.joined, hc]
      simp
    rw [h] at hmem
    exact absurd hmem (not_mem_identifier d.simple hs)

variable {jvm} {m : Method}

theorem find_unnamed (hm : m ∈ jvm.methods) (hpackage : m.declaring.package = []) (separator : Char)
    (hs : separator = '.' ∨ separator = '/') :
    jvm.classes.find? (·.joined separator = m.declaring.joined separator) = some m.declaring := by
  cases hfind : jvm.classes.find? (·.joined separator = m.declaring.joined separator) with
  | none =>
    have hnone := List.find?_eq_none.mp hfind _ (jvm.loaded m hm)
    exact absurd (decide_eq_true rfl) hnone
  | some c =>
    have hjoined := List.find?_some hfind
    rw [joined_unnamed hs hpackage (of_decide_eq_true hjoined)]

theorem getJavaCallArgs_some {d : FuncDef δ} {row : PgProcRow δ} (hrow : createFunctionStatement strings m = some row)
    (h : getJavaCallArgs strings jvm row = some d) :
    d.className = m.declaring.internalName ∧ d.methodName = m.name.chars ∧
      d.methodDesc = strings.descriptorString m.type := by
  rw [createFunctionStatement, classGroup_descriptor] at hrow
  cases hrow
  obtain ⟨hdrop, htake⟩ := splitName m
  rw [getJavaCallArgs, hdrop, htake] at h
  simp only at h
  split at h
  · cases h
    exact ⟨rfl, rfl, rfl⟩
  · nomatch h

def staticMethod (package : List Identifier) : Method :=
  ⟨⟨package, ⟨['C'], by simp⟩⟩, ⟨['m'], by simp⟩, ⟨[], .primitive 'I'⟩, true⟩

def oneMethod (m : Method) : Jvm where
  classes := [m.declaring]
  methods := [m]
  getStaticMethodID := fun _ _ _ => m.isStatic
  loaded := fun _ h => mem_singleton.mpr (congrArg _ (mem_singleton.mp h))
  found := fun _ h hstatic => by rw [← mem_singleton.mp h, hstatic]

def plainDescriptors : Descriptors MethodType := ⟨id, some, fun _ => rfl⟩

end WeaverDB.Java
