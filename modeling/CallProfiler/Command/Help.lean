import CallProfiler.Command.Arguments

/-!
# Help

What is told to those who ask for help or whose command line is refused.
-/

namespace CallProfiler.Command

/-- What the commands do and which options they take. -/
def usage : String := "\n".intercalate [
  "Function profiler: calibration, analysis of traces, and a demonstration",
  "",
  "Usage: call-profiler [-q | --quiet] COMMAND [OPTIONS]",
  "",
  "  calibrate      measure the overhead of a recorded call on this machine",
  "    --iterations N     number of measured calls (10000)",
  "    --json             print the result as JSON",
  "",
  "  analyze TRACE  analyze a recorded trace",
  "    --inner TICKS      overhead inside each recorded call (0)",
  "    --outer TICKS      overhead around each recorded call (0)",
  "    --export FILE      write the report as JSON",
  "    --binary PATH      binary that names the functions",
  "    --load-base ADDR   where the binary was loaded, in hexadecimal (0)",
  "    --top N            number of functions that are listed (20)",
  "",
  "  demo           patch and run generated functions",
  "    --threads N        number of workers (4)",
  "    --calls N          calls of each worker (1000)",
  "    --trace-limit N    events that a worker may hold back, 0 for any number (0)",
  "    --calibrate        measure the overhead first",
  "    --export FILE      write the report as JSON",
  "    --record FILE      write the trace"]

/-- Why a command line is refused. -/
def Refusal.message : Refusal → String
  | help => usage
  | helpForNothing => usage
  | missingCommand => "a command is missing"
  | unknownCommand => "unknown command"
  | unknownArgument => "unexpected argument"
  | missingArgument => "a required argument is missing"
  | repeated => "an option is given twice"
  | tooManyValues => "a flag takes no value"
  | noValue => "a value is missing"
  | badValue => "a value cannot be read"

end CallProfiler.Command
