/-
# Engine.Configured -- the engine that a configuration describes

Paths of the configuration are taken from the root of the project.  The
directory of the cache is made when it is missing.
-/
import TagTemplate.Config
import TagTemplate.Engine

namespace TagTemplate.Engine

set_option autoImplicit false

variable {σ : Type}

def ofConfig (root : Text) (c : Config) : Action σ (Engine σ) := do
  let path := c.cachePath root
  let s ← get
  let (files, made) := s.files.makeDirectories path
  set { s with files }
  match made with
  | .error e => throw (.cacheDirectory path (.file e))
  | .ok () => do
    let e ← create path
    let searchPath := SearchPath.ofPaths (← get).files (c.templateDirs root)
    return { e with settings := ⟨searchPath, c.options⟩, useCache := c.cacheEnabled }

end TagTemplate.Engine
