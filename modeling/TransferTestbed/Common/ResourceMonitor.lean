import TransferTestbed.Library.Decimal

/-!
# What a resource monitor reports (`common/resource_monitor.py`)

Its samples come from the operating system, so what `stop` returns is given. Only
how the clients and servers print it is modelled.
-/

namespace TransferTestbed.ResourceMonitor

/-- What `ResourceMonitor.stop` returns, but for the number of samples. -/
structure Stats where
  avgCpuPct : ℚ
  peakRssMb : ℚ
  energyJ : ℚ
deriving DecidableEq, Repr

/-- What `{}.get(..., 0)` gives without a monitor. -/
def Stats.zero : Stats := ⟨0, 0, 0⟩

/-- The cells of a measurement row. -/
def Stats.texts (s : Stats) : List (String × String) :=
  [("avg_cpu_usage", Decimal.fixed 2 s.avgCpuPct ++ "%"),
    ("peak_ram_usage", Decimal.fixed 2 s.peakRssMb ++ " MB"),
    ("energy_est", Decimal.fixed 4 s.energyJ)]

end TransferTestbed.ResourceMonitor
