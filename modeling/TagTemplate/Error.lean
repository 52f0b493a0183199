/-
# Error -- why a template could not be compiled, cached or rendered

Faults in the nesting of tags are no errors; they are diagnostics.  An error has
a message, a code, and for most kinds an advice.
-/
import TagTemplate.FileSystem

namespace TagTemplate

set_option autoImplicit false

/-- Why a directory cannot hold the cache. -/
inductive CacheFault where
  | file (e : FileError)
  | noDirectory
  deriving DecidableEq, Repr

def CacheFault.message : CacheFault → Text
  | .file e => e.message
  | .noDirectory => "not a directory".toList

/-- Why a request failed. -/
inductive Error where
  | io (e : FileError)
  | templateNotFound (name : Text)
  | cacheDirectory (path : Text) (fault : CacheFault)
  | cacheWrite (artifact : Location) (e : FileError)
  | extendsCycle (file : Location)
  | config
  | render
  deriving DecidableEq, Repr

namespace Error

def message : Error → Text
  | .io e => e.message
  | .templateNotFound name => "template not found: `".toList ++ name ++ ['`']
  | .cacheDirectory path fault =>
    "cache directory `".toList ++ path ++ "` is not usable: ".toList ++ fault.message
  | .cacheWrite artifact e =>
    "failed to write compiled template `".toList ++ artifact.written ++ "`: ".toList ++ e.message
  | .extendsCycle file =>
    "template `".toList ++ file.written ++ "` extends itself through its parent chain".toList
  | .config => "failed to parse config file".toList
  | .render => "template rendering failed".toList

def code : Error → Text
  | .io _ => "tagtpl::io_error".toList
  | .templateNotFound _ => "tagtpl::template_not_found".toList
  | .cacheDirectory .. => "tagtpl::cache_directory".toList
  | .cacheWrite .. => "tagtpl::cache_write".toList
  | .extendsCycle _ => "tagtpl::extends_cycle".toList
  | .config => "tagtpl::config_parse".toList
  | .render => "tagtpl::render".toList

def help? : Error → Option Text
  | .templateNotFound name =>
    some ("check that `".toList ++ name
      ++ "` exists in one of the configured template directories".toList)
  | .cacheDirectory .. =>
    some "create the directory and make sure the current user can write to it".toList
  | .extendsCycle _ =>
    some "remove the `\x7b\x7btpl:extends\x7d\x7d` tag that points back into the chain".toList
  | .config =>
    some ("check that tagtpl.toml is valid TOML with [templates], [cache] and/or ".toList
      ++ "[host_snippets] sections".toList)
  | _ => none

end Error

end TagTemplate
