import HostRouting.Network.Link

/-!
# Configuration of the compiler
-/

namespace HostRouting

/-- What is compiled for each direction. -/
inductive InstallableFlavor where
  | linkCollection
  | path
deriving DecidableEq

structure CompilerConfig where
  /-- How often writing an annotation is tried before it is given up. -/
  writeAttempts : Nat
  /-- The provider in whose name annotations are written. -/
  writer : ProviderId
  flavor : InstallableFlavor
deriving DecidableEq

def CompilerConfig.default : CompilerConfig where
  writeAttempts := 10
  writer := ⟨"h2h", "intentCompiler"⟩
  flavor := .linkCollection

/-! ## JSON form -/

def InstallableFlavor.tags : List (String × InstallableFlavor) :=
  [("link_collection", .linkCollection), ("path", .path)]

def InstallableFlavor.tag : InstallableFlavor → String
  | .linkCollection => "link_collection"
  | .path => "path"

instance : Json.Decode InstallableFlavor := ⟨Json.decodeTag InstallableFlavor.tags⟩
instance : Json.Encode InstallableFlavor := ⟨fun f => .text f.tag⟩

def CompilerConfig.fields : Json.Fields CompilerConfig :=
  CompilerConfig.mk <$> .defaulted "annotation_write_attempts" CompilerConfig.default.writeAttempts
    <*> .defaulted "annotation_provider" CompilerConfig.default.writer
    <*> .defaulted "sub_intent_flavor" CompilerConfig.default.flavor

instance : Json.Decode CompilerConfig := ⟨CompilerConfig.fields.decode⟩

instance : Json.Encode CompilerConfig where
  encode c := .object
    [("annotation_write_attempts", Json.encode c.writeAttempts),
     ("annotation_provider", Json.encode c.writer), ("sub_intent_flavor", Json.encode c.flavor)]

end HostRouting
